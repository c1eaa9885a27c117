import MarkdownEdits.Submission

/-!
# Scripted services

A service that answers from a script, for runs without a network: each submission takes the next
reply, and the end of the document is what it was last set to.
-/

namespace MarkdownEdits

structure ScriptedService where
  replies : List (Except ServiceError Json)
  endIndex : Except ServiceError Nat
  deriving Inhabited

namespace ScriptedService

/-- A script that has run out accepts with an empty object. -/
def answer : (call : ServiceCall) → ScriptedService → call.Answer × ScriptedService
  | .submit .., s =>
    match s.replies with
    | [] => (.ok (.object []), s)
    | reply :: rest => (reply, { s with replies := rest })
  | .endIndex _, s => (s.endIndex, s)

/-- Runs a submission against the script. -/
def run {α : Type} (x : Submission α) (s : ScriptedService) :
    Transcript documentService ScriptedService (Except SubmitError α) :=
  (ExceptT.run x).run answer s

end ScriptedService

end MarkdownEdits
