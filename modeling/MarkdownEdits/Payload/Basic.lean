import MarkdownEdits.Base64.Decode
import MarkdownEdits.Json.Parser
import MarkdownEdits.Log
import MarkdownEdits.Payload.Sniff

/-!
# Payloads

A request body holds Markdown, as it is or as the `markdown` member of a JSON object, and either may
be base64. `extract` gives the Markdown of a body.
-/

namespace MarkdownEdits

inductive InputError
  /-- There is no Markdown, or none but blanks. -/
  | empty
  | missingMarkdown
  | invalidBase64 (fault : Base64.Fault)
  | notUtf8
  | missingRequests
  | emptyRange (start stop : Nat)
  deriving DecidableEq, Repr, Inhabited

def InputError.message : InputError → String
  | .empty => "no markdown content in request body"
  | .missingMarkdown => "JSON body has no string `markdown` field"
  | .invalidBase64 fault => "payload is not valid base64: " ++ fault.message
  | .notUtf8 => "decoded payload is not UTF-8"
  | .missingRequests => "batch body has no `requests` list"
  | .emptyRange start stop => s!"range {start}..{stop} is empty"

namespace Payload

/-- The text whose base64 form a text is, blanks aside. -/
def decodeBase64 (text : String) : Except InputError String := do
  let bytes ← (Base64.decode (Text.bytes (Text.withoutBlanks text))).mapError .invalidBase64
  match String.fromUTF8? ⟨bytes.toArray⟩ with
  | some decoded => return decoded
  | none => .error .notUtf8

/-- What a text is taken for. -/
inductive Encoding
  | plain
  | base64 (decoded : String)
  /-- It has the shape of base64 and is none. -/
  | lookalike (fault : InputError)
  deriving DecidableEq, Repr, Inhabited

def encodingOf (text : String) : Encoding :=
  if looksLikeBase64 text then
    match decodeBase64 text with
    | .ok decoded => .base64 decoded
    | .error fault => .lookalike fault
  else .plain

/-- A text with its base64 undone, if it is that. -/
def normalize (text : String) : String :=
  match encodingOf text with
  | .base64 decoded => decoded
  | .plain | .lookalike _ => text

def isJson (contentType : Option String) : Bool :=
  contentType.any fun t => Text.hasPart "application/json".toList t.toList

/-- The text that a body carries, before base64 is undone. A body that claims to be JSON and is
not counts as plain. -/
def carried (body : String) (contentType : Option String) : Except InputError String :=
  if isJson contentType then
    match Json.parse? body with
    | some v =>
      match (v.member? "markdown").bind Json.string? with
      | some text => .ok text
      | none => .error .missingMarkdown
    | none => .ok body
  else .ok body

/-- The Markdown of a body. -/
def extract (body : String) (contentType : Option String) : Except InputError String := do
  let text ← carried body contentType
  if Text.trim text = "" then .error .empty else return normalize text

/-! ### Log -/

def encodingLog : Encoding → List LogLine
  | .plain => []
  | .base64 decoded =>
    [⟨.info, s!"decoded base64 payload ({(Text.bytes decoded).length} bytes)"⟩]
  | .lookalike fault => [⟨.debug, "base64-shaped payload kept as text: " ++ fault.message⟩]

/-- What is logged while the Markdown of a body is looked for. -/
def extractLog (body : String) (contentType : Option String) : List LogLine :=
  let broken : LogLine := ⟨.warn, "JSON body failed to parse"⟩
  let parsing := if isJson contentType && (Json.parse? body).isNone then [broken] else []
  match carried body contentType with
  | .ok text => parsing ++ (if Text.trim text = "" then [] else encodingLog (encodingOf text))
  | .error _ => parsing

end Payload

end MarkdownEdits
