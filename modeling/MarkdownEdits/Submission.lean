import MarkdownEdits.Batch
import MarkdownEdits.Compilation.Compile
import MarkdownEdits.Payload.Basic
import MarkdownEdits.Service.Basic

/-!
# Submissions

Inserting Markdown, clearing a document and applying a ready batch each build one batch and send it
in one call. What goes wrong before the call ends it unsent; what the service answers is handed on
as it is.
-/

namespace MarkdownEdits

inductive SubmitError
  | input (error : InputError)
  | compile (error : CompileError)
  | service (error : ServiceError)
  deriving DecidableEq, Repr, Inhabited

def SubmitError.message : SubmitError → String
  | .input e => e.message
  | .compile e => e.message
  | .service e => e.describe

/-- What an accepted submission sent, and the service's reply. -/
structure Submitted where
  requests : Nat
  reply : Json
  deriving Repr, Inhabited

/-- A dialogue with the service that may end in an error. -/
abbrev Submission := ExceptT SubmitError (Dialogue documentService)

namespace Submission

def liftExcept {ε α : Type} (wrap : ε → SubmitError) (x : Except ε α) : Submission α :=
  ExceptT.mk (.done (x.mapError wrap))

/-- Sends a body in one call. -/
def submit (documentId : String) (body : Json) : Submission Json :=
  ExceptT.mk (.ask (.submit documentId body) fun reply => .done (reply.mapError .service))

/-- Asks where a document ends. -/
def endIndex (documentId : String) : Submission Nat :=
  ExceptT.mk (.ask (.endIndex documentId) fun n => .done (n.mapError .service))

/-- Sends edits as one batch. -/
def submitEdits (documentId : String) (edits : List Edit) : Submission Submitted := do
  let reply ← submit documentId (batchJson edits).sorted
  return ⟨edits.length, reply⟩

/-- Inserts a text at the end of a document. -/
def insert (o : Options) (documentId : String) (m : Markdown) : Submission Submitted := do
  let c ← liftExcept .compile (compileMarkdown o m)
  if c.edits.isEmpty then throw (.input .empty)
  submitEdits documentId c.edits

/-- The first position of a document's body. -/
def bodyStart : Nat := 1

/-- The edits that delete a range; an empty range is refused. -/
def clearEdits (start stop : Nat) : Except InputError (List Edit) :=
  if stop ≤ start then .error (.emptyRange start stop) else .ok [.delete ⟨start, stop⟩]

/-- The edits that clear a document, from the start of its body to just before its final line break,
which the service does not let go, unless the bounds are given. -/
def clearRange (documentId : String) (start stop : Option Nat) : Submission (List Edit) := do
  let stop ← match stop with
    | some stop => pure stop
    | none => do
      let n ← endIndex documentId
      pure (n - 1)
  liftExcept .input (clearEdits (start.getD bodyStart) stop)

/-- Deletes the content of a document. -/
def clear (documentId : String) (start stop : Option Nat) : Submission Submitted := do
  let edits ← clearRange documentId start stop
  submitEdits documentId edits

/-- The number of requests that a batch holds. -/
def requestCount (body : Json) : Except InputError Nat :=
  match (body.member? "requests").bind Json.array? with
  | some requests => .ok requests.length
  | none => .error .missingRequests

/-- Sends a ready batch as it is. -/
def apply (documentId : String) (body : Json) : Submission Submitted := do
  let n ← liftExcept .input (requestCount body)
  let reply ← submit documentId body
  return ⟨n, reply⟩

/-! ### Log -/

/-- The line for an accepted submission. -/
def acceptedLog (line : Submitted → String) : Except SubmitError Submitted → List LogLine
  | .ok s => [⟨.info, line s⟩]
  | .error _ => []

def insertLog (o : Options) (documentId : String) (m : Markdown)
    (result : Except SubmitError Submitted) : List LogLine :=
  markdownLog o m ++
    acceptedLog (fun s => s!"inserted {s.requests} request(s) into document {documentId}") result

def clearLog (documentId : String) (result : Except SubmitError Submitted) : List LogLine :=
  acceptedLog (fun _ => s!"cleared content of document {documentId}") result

def applyLog (documentId : String) (result : Except SubmitError Submitted) : List LogLine :=
  acceptedLog (fun s => s!"applied {s.requests} request(s) to document {documentId}") result

end Submission

end MarkdownEdits
