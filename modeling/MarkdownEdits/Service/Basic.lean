import MarkdownEdits.Dialogue
import MarkdownEdits.Json.Parser
import MarkdownEdits.Text.Blank

/-!
# The document service

The service takes batches and knows where a document ends. Here is what it may be asked, how it can
fail, and what its answers say.
-/

namespace MarkdownEdits

/-- Why an exchange with the service gave no answer that can be read. -/
inductive TransportFault
  /-- The request could not be put together. -/
  | request
  /-- Nothing came back from `url`. -/
  | noReply (url : String)
  /-- What came back is not JSON. -/
  | decoding
  deriving DecidableEq, Repr, Inhabited

def TransportFault.message : TransportFault → String
  | .request => "builder error"
  | .noReply url => s!"error sending request for url ({url})"
  | .decoding => "error decoding response body"

inductive ServiceError
  /-- The service answered with a status other than success. -/
  | rejected (status : Nat) (body : String)
  | transport (fault : TransportFault)
  | invalidResponse (reason : String)
  deriving DecidableEq, Repr, Inhabited

/-- The message in a JSON body that reports an error, else the whole body without blanks around
it. -/
def rejectionMessage (body : String) : String :=
  let message := do
    let v ← Json.parse? body
    let error ← v.member? "error"
    let text ← error.member? "message"
    text.string?
  message.getD (Text.trim body)

namespace ServiceError

def describe : ServiceError → String
  | .rejected status body =>
    s!"document service rejected the request ({status}): {rejectionMessage body}"
  | .transport fault => "HTTP request failed: " ++ fault.message
  | .invalidResponse reason => "unexpected response from document service: " ++ reason

def status? : ServiceError → Option Nat
  | .rejected status _ => some status
  | _ => none

def body? : ServiceError → Option String
  | .rejected _ body => some body
  | _ => none

/-- What the service itself says about the error, else the description. -/
def message : ServiceError → String
  | .rejected _ body => rejectionMessage body
  | e => e.describe

end ServiceError

/-- The position behind the last character of a document: the `endIndex` of the last element of its
body. -/
def endIndexOf (document : Json) : Except ServiceError Nat :=
  match (document.member? "body").bind fun body => (body.member? "content").bind Json.array? with
  | none => .error (.invalidResponse "document has no body content")
  | some content =>
    match content.getLast?.bind fun element => (element.member? "endIndex").bind Json.nat? with
    | none => .error (.invalidResponse "body content has no endIndex")
    | some n => .ok n

inductive ServiceCall
  | submit (documentId : String) (body : Json)
  | endIndex (documentId : String)
  deriving Repr, Inhabited

/-- A submission is answered with the service's reply, a question for the end with a position. -/
abbrev ServiceCall.Answer : ServiceCall → Type
  | .submit .. => Except ServiceError Json
  | .endIndex _ => Except ServiceError Nat

abbrev documentService : Interface := ⟨ServiceCall, ServiceCall.Answer⟩

end MarkdownEdits
