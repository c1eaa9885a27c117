import MarkdownEdits.Batch
import MarkdownEdits.Http.Target
import MarkdownEdits.Service.Basic

/-!
# The service over HTTP

Batches are posted as JSON, the end of a document is read back from the document. Nothing is sent
twice, and an answer that is no success is handed back with its status and body.
-/

namespace MarkdownEdits.Http

inductive Method
  | get
  | post
  deriving DecidableEq, Repr, Inhabited

def Method.name : Method → String
  | .get => "GET"
  | .post => "POST"

/-- A request to the address `base` followed by `path`; the query pairs come on top of a query in
the address. -/
structure Request where
  method : Method
  base : String
  path : String
  query : List (String × String)
  authorization : String
  contentType : Option String
  body : String
  deriving DecidableEq, Repr, Inhabited

structure Reply where
  status : Nat
  body : String
  deriving DecidableEq, Repr, Inhabited

/-- A network carries a request and brings the reply, if one comes. -/
abbrev network : Interface := ⟨Request, fun _ => Option Reply⟩

/-- The address of a request. -/
def Request.url (r : Request) : String :=
  r.base ++ r.path ++ match r.query with
    | [] => ""
    | pairs => "?" ++ "&".intercalate (pairs.map fun p => p.1 ++ "=" ++ p.2)

/-- Whether a header may have the value: control characters other than the tab may not stand in
it. -/
def isHeaderText (s : String) : Bool :=
  s.toList.all fun c => c == '\t' || (0x20 ≤ c.toNat && c.toNat != 0x7F)

def defaultEndpoint : String := "https://docs.googleapis.com"

/-- Where the service is and the token that it asks for. -/
structure Client where
  baseUrl : String
  token : String
  deriving DecidableEq, Repr, Inhabited

namespace Client

/-- The slashes at the end of an address are dropped. -/
def ofUrl (url token : String) : Client :=
  ⟨.ofList (Text.dropEndWhile (· == '/') url.toList), token⟩

def authorization (c : Client) : String := "Bearer " ++ c.token

/-- The request for a call. The body of a batch is its compact text. -/
def request (c : Client) : ServiceCall → Request
  | .submit id body =>
    { method := .post, base := c.baseUrl, path := batchUpdatePath id, query := [],
      authorization := c.authorization, contentType := some "application/json",
      body := body.compact }
  | .endIndex id =>
    { method := .get, base := c.baseUrl, path := documentPath id,
      query := [("fields", "body.content.endIndex")],
      authorization := c.authorization, contentType := none, body := "" }

/-- The body of a reply. There is none with a status that excludes it, and a byte order mark is not
part of a text. -/
def bodyText (r : Reply) : String :=
  if r.status = 204 ∨ r.status = 304 then "" else r.body

def withoutByteOrderMark (s : String) : String :=
  match s.toList with
  | '\uFEFF' :: rest => .ofList rest
  | _ => s

/-- The JSON value of a reply that reports success. -/
def accepted (r : Reply) : Except ServiceError Json :=
  if 200 ≤ r.status ∧ r.status < 300 then
    match Json.parse? (bodyText r) with
    | some v => .ok v
    | none => .error (.transport .decoding)
  else .error (.rejected r.status (withoutByteOrderMark (bodyText r)))

/-- Carries out a request. -/
def exchange (r : Request) : Dialogue network (Except ServiceError Json) :=
  if isHeaderText r.authorization then
    .ask r fun reply => .done <|
      match reply with
      | none => .error (.transport (.noReply r.url))
      | some reply => accepted reply
  else .done (.error (.transport .request))

/-- Answers a call to the service over the network. -/
def answer (c : Client) (call : ServiceCall) : Dialogue network call.Answer :=
  match call with
  | .submit id body => exchange (c.request (.submit id body))
  | .endIndex id => (exchange (c.request (.endIndex id))).bind fun v => .done (v.bind endIndexOf)

/-- A dialogue with the service, held over the network. -/
def connect {α : Type} (c : Client) (d : Dialogue documentService α) : Dialogue network α :=
  d.interpret c.answer

end Client

end MarkdownEdits.Http
