/-!
# Dialogues

A computation that needs answers from outside is a tree: it is done, or it asks a question and goes
on with the answer. Who answers is left open, so that one computation can be run against a service,
against a script, or step by step in a proof.
-/

namespace MarkdownEdits

/-- The questions that may be asked, and what each is answered with. -/
structure Interface where
  Question : Type
  Answer : Question → Type

inductive Dialogue (I : Interface) (α : Type)
  | done (result : α)
  | ask (question : I.Question) (next : I.Answer question → Dialogue I α)

/-- A dialogue that has come to its end: its result, the state of the one who answered, and the
questions in the order in which they were asked. -/
structure Transcript (I : Interface) (σ α : Type) where
  result : α
  state : σ
  asked : List I.Question

namespace Dialogue

variable {I J : Interface} {α β σ : Type}

def bind : Dialogue I α → (α → Dialogue I β) → Dialogue I β
  | done a, f => f a
  | ask q next, f => ask q fun answer => (next answer).bind f

instance : Monad (Dialogue I) where
  pure := done
  bind := bind

/-- Asks a question and hands back the answer. -/
def question (q : I.Question) : Dialogue I (I.Answer q) := ask q done

/-- Holds a dialogue with one who answers from a state and may change it. -/
def run (answer : (q : I.Question) → σ → I.Answer q × σ) : Dialogue I α → σ → Transcript I σ α
  | done a, s => ⟨a, s, []⟩
  | ask q next, s =>
    let (a, s) := answer q s
    let t := (next a).run answer s
    { t with asked := q :: t.asked }

/-- Holds a dialogue by asking other questions. -/
def interpret (answer : (q : I.Question) → Dialogue J (I.Answer q)) : Dialogue I α → Dialogue J α
  | done a => done a
  | ask q next => (answer q).bind fun a => (next a).interpret answer

end Dialogue

end MarkdownEdits
