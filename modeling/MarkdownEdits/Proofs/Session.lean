import MarkdownEdits.Proofs.Wire
import MarkdownEdits.Service.Scripted

/-!
# Sessions with the service

A session is a sequence of flows, each of which inserts a text, clears a document or sends a ready
batch, held with a service that may answer every call as it likes. What a flow can ask is read off
its dialogue once (`Flow.course`); the discipline of a flow follows, and from flow to flow that of a
session.
-/

namespace MarkdownEdits

/-! ### Questions with their answers -/

/-- A question with the answer it got. -/
structure Exchange (I : Interface) where
  question : I.Question
  answer : I.Answer question

section Exchanges

variable {I : Interface} {σ α : Type} (answer : (q : I.Question) → σ → I.Answer q × σ)

/-- The exchanges of a dialogue, in the order in which they took place. -/
def Dialogue.exchanges : Dialogue I α → σ → List (Exchange I)
  | .done _, _ => []
  | .ask q next, s =>
    let (a, s) := answer q s
    ⟨q, a⟩ :: (next a).exchanges s

theorem Dialogue.question_exchanges (d : Dialogue I α) (s : σ) :
    (d.exchanges answer s).map Exchange.question = (d.run answer s).asked := by
  induction d generalizing s with
  | done a => rfl
  | ask q next ih => exact congrArg (q :: ·) (ih _ _)

end Exchanges

namespace Exchange

/-- The body of a submission, with the reply. -/
def submission? : Exchange documentService → Option (Json × Except ServiceError Json)
  | ⟨.submit _ body, reply⟩ => some (body, reply)
  | ⟨.endIndex _, _⟩ => none

/-- The answer to a question for the end of a document. -/
def end? : Exchange documentService → Option (Except ServiceError Nat)
  | ⟨.submit .., _⟩ => none
  | ⟨.endIndex _, stop⟩ => some stop

/-- The document that an exchange is about. -/
def documentId : Exchange documentService → String
  | ⟨.submit id _, _⟩ => id
  | ⟨.endIndex id, _⟩ => id

end Exchange

/-! ### Flows -/

/-- A flow with its arguments. -/
inductive Flow
  | insert (o : Options) (documentId : String) (m : Markdown)
  | clear (documentId : String) (start stop : Option Nat)
  | apply (documentId : String) (body : Json)

namespace Flow

def documentId : Flow → String
  | insert _ id _ | clear id _ _ | apply id _ => id

def submission : Flow → Submission Submitted
  | insert o id m => .insert o id m
  | clear id start stop => .clear id start stop
  | apply id body => .apply id body

end Flow

/-- A flow that has come to its end. -/
structure Round (σ : Type) where
  transcript : Transcript documentService σ (Except SubmitError Submitted)
  exchanges : List (Exchange documentService)

namespace Round

variable {σ : Type} (r : Round σ)

def result : Except SubmitError Submitted := r.transcript.result

/-- The bodies submitted, with the replies. -/
def submissions : List (Json × Except ServiceError Json) :=
  r.exchanges.filterMap Exchange.submission?

/-- The answers to questions for the end of the document. -/
def ends : List (Except ServiceError Nat) := r.exchanges.filterMap Exchange.end?

end Round

section Sessions

variable {σ : Type} (answer : (call : ServiceCall) → σ → call.Answer × σ)

/-- Holds a dialogue and notes what is said. -/
def Round.ofDialogue (d : Dialogue documentService (Except SubmitError Submitted)) (s : σ) :
    Round σ :=
  ⟨d.run answer s, d.exchanges answer s⟩

/-- The round in which one exchange came first. -/
def Round.after (x : Exchange documentService) (r : Round σ) : Round σ :=
  ⟨{ r.transcript with asked := x.question :: r.transcript.asked }, x :: r.exchanges⟩

def Flow.round (f : Flow) : σ → Round σ := .ofDialogue answer f.submission.run

/-- Holds flows one after another, each with the service as the last one left it. -/
def session : List Flow → σ → List (Flow × Round σ)
  | [], _ => []
  | f :: flows, s =>
    let r := f.round answer s
    (f, r) :: session flows r.transcript.state

end Sessions

/-! ### What a flow can ask -/

/-- The reply to a submission of `n` requests, as it is reported. -/
def reported (n : Nat) : Except ServiceError Json → Except SubmitError Submitted
  | .ok reply => .ok ⟨n, reply⟩
  | .error e => .error (.service e)

/-- An error that does not come from the service. -/
def SubmitError.IsOwn : SubmitError → Prop
  | .input _ | .compile _ => True
  | .service _ => False

theorem reported_ne_error {n : Nat} {reply : Except ServiceError Json} {e : SubmitError}
    (own : e.IsOwn) : reported n reply ≠ .error e := by
  rintro hreply
  cases reply <;> cases hreply
  exact own

/-- The dialogue refuses, or it submits one batch and reports the reply. -/
inductive Settles (id : String) : Dialogue documentService (Except SubmitError Submitted) → Prop
  | refuse {e : SubmitError} (own : e.IsOwn) : Settles id (.done (.error e))
  | submit {body : Json} {requests : List Json}
      (hrequests : body.member? "requests" = some (.array requests)) :
      Settles id (.ask (.submit id body) fun reply => .done (reported requests.length reply))

/-- How a flow can go on: it settles at once, or, where it clears up to an end that is not given, it
asks for the end first. -/
inductive Flow.Course : Flow → Dialogue documentService (Except SubmitError Submitted) → Prop
  | settle {f : Flow} {d : Dialogue documentService (Except SubmitError Submitted)}
      (h : Settles f.documentId d) : Course f d
  | askEnd {id : String} {start : Option Nat}
      {next : Except ServiceError Nat → Dialogue documentService (Except SubmitError Submitted)}
      (hfailed : ∀ e, next (.error e) = .done (.error (.service e)))
      (hknown : ∀ stop, Settles id (next (.ok stop))) :
      Course (.clear id start none) (.ask (.endIndex id) next)

section Settle

variable (id : String)

/-- Sending a body in one call and reporting the reply. -/
theorem settles_submit {body : Json} {n : Nat} (h : Submission.requestCount body = .ok n) :
    Settles id (do return ⟨n, ← Submission.submit id body⟩ : Submission Submitted).run := by
  have hrun : (do return ⟨n, ← Submission.submit id body⟩ : Submission Submitted).run =
      .ask (.submit id body) fun reply => .done (reported n reply) := by
    refine congrArg (Dialogue.ask _) (funext fun reply => ?_)
    cases reply <;> rfl
  rw [hrun]
  cases hrequests : (body.member? "requests").bind Json.array? with
  | none => rw [Submission.requestCount, hrequests] at h; cases h
  | some requests =>
    rw [Submission.requestCount, hrequests] at h
    obtain ⟨value, hvalue, harray⟩ := Option.bind_eq_some_iff.1 hrequests
    cases value <;> cases harray
    cases h
    exact .submit hvalue

theorem settles_submitEdits (edits : List Edit) :
    Settles id (Submission.submitEdits id edits).run :=
  settles_submit id (requestCount_sorted_batchJson edits)

theorem settles_apply (body : Json) : Settles id (Submission.apply id body).run := by
  rw [Submission.apply]
  cases hcount : Submission.requestCount body with
  | error e => exact .refuse (e := .input e) trivial
  | ok n => exact settles_submit id hcount

theorem settles_insert (o : Options) (m : Markdown) :
    Settles id (Submission.insert o id m).run := by
  rw [Submission.insert]
  cases compileMarkdown o m with
  | error e => exact .refuse (e := .compile e) trivial
  | ok c =>
    show Settles id (if c.edits.isEmpty then _ else _)
    split
    · exact .refuse (e := .input .empty) trivial
    · exact settles_submitEdits id c.edits

theorem settles_clear (start : Option Nat) (stop : Nat) :
    Settles id (Submission.clear id start (some stop)).run := by
  have hclear : Submission.clear id start (some stop) =
      Submission.liftExcept .input (Submission.clearEdits (start.getD Submission.bodyStart) stop) >>=
        Submission.submitEdits id := rfl
  rw [hclear]
  cases Submission.clearEdits (start.getD Submission.bodyStart) stop with
  | error e => exact .refuse (e := .input e) trivial
  | ok edits => exact settles_submitEdits id edits

end Settle

theorem Flow.course (f : Flow) : f.Course f.submission.run := by
  cases f with
  | insert o id m => exact .settle (settles_insert id o m)
  | apply id body => exact .settle (settles_apply id body)
  | clear id start stop =>
    cases stop with
    | some stop => exact .settle (settles_clear id start stop)
    | none => exact .askEnd (fun e => rfl) fun n => settles_clear id start (n - 1)

/-! ### Discipline -/

/-- **How a flow behaves towards the service.** -/
structure Disciplined {σ : Type} (f : Flow) (r : Round σ) : Prop where
  /-- The exchanges are all that the service was asked. -/
  asked : r.exchanges.map Exchange.question = r.transcript.asked
  document : ∀ x ∈ r.exchanges, x.documentId = f.documentId
  submitsOnce : r.submissions.length ≤ 1
  /-- An error of the flow's own leaves nothing submitted. -/
  refused : ∀ e : SubmitError, e.IsOwn → r.result = .error e → r.submissions = []
  /-- The reply to a submission is the result, with the number of requests that were sent. -/
  handedOn : ∀ body reply, (body, reply) ∈ r.submissions → ∃ requests,
    body.member? "requests" = some (.array requests) ∧ r.result = reported requests.length reply
  /-- Nothing is left unsubmitted but for an error. -/
  unsubmitted : r.submissions = [] → ∃ e : SubmitError, r.result = .error e ∧
    (e.IsOwn ∨ ∃ x, e = .service x ∧ .error x ∈ r.ends)
  asksEndOnce : r.ends.length ≤ 1
  asksEndOnlyToClear : r.ends ≠ [] → ∃ id start, f = .clear id start none
  /-- Nothing is submitted before a question for the end. -/
  asksEndFirst : r.exchanges.Pairwise fun x y => y.end?.isSome → x.submission? = none
  endFailed : ∀ e, .error e ∈ r.ends → r.result = .error (.service e) ∧ r.submissions = []

section Disciplined

variable {σ : Type} (answer : (call : ServiceCall) → σ → call.Answer × σ)

theorem Settles.ends {id : String} {d : Dialogue documentService (Except SubmitError Submitted)}
    (h : Settles id d) (s : σ) : (Round.ofDialogue answer d s).ends = [] := by
  cases h <;> rfl

theorem Settles.disciplined {f : Flow}
    {d : Dialogue documentService (Except SubmitError Submitted)} (h : Settles f.documentId d)
    (s : σ) : Disciplined f (.ofDialogue answer d s) := by
  have hasked := d.question_exchanges answer s
  have hends := h.ends answer s
  cases h with
  | @refuse e own =>
    exact {
      asked := hasked
      document := by simp [Round.ofDialogue, Dialogue.exchanges]
      submitsOnce := Nat.zero_le 1
      refused := fun _ _ _ => rfl
      handedOn := fun _ _ hmem => absurd hmem List.not_mem_nil
      unsubmitted := fun _ => ⟨e, rfl, .inl own⟩
      asksEndOnce := Nat.zero_le 1
      asksEndOnlyToClear := fun hne => absurd hends hne
      asksEndFirst := .nil
      endFailed := fun _ hmem => absurd hmem List.not_mem_nil }
  | @submit body requests hrequests =>
    exact {
      asked := hasked
      document := by simp [Round.ofDialogue, Dialogue.exchanges, Exchange.documentId]
      submitsOnce := Nat.le_refl 1
      refused := fun e own hresult => absurd hresult (reported_ne_error own)
      handedOn := by
        intro body' reply hmem
        cases List.mem_singleton.1 hmem
        exact ⟨requests, hrequests, rfl⟩
      unsubmitted := fun hnil => absurd hnil (List.cons_ne_nil _ _)
      asksEndOnce := Nat.zero_le 1
      asksEndOnlyToClear := fun hne => absurd hends hne
      asksEndFirst := List.pairwise_singleton _ _
      endFailed := fun _ hmem => absurd hmem List.not_mem_nil }

/-- A round of a clearing stays disciplined when the end was asked for, and told, before it. -/
theorem Disciplined.after_end {id : String} {start : Option Nat} {r : Round σ}
    (h : Disciplined (.clear id start none) r) (hends : r.ends = []) (stop : Nat) :
    Disciplined (.clear id start none) (r.after ⟨.endIndex id, .ok stop⟩) := by
  have hends' : (r.after ⟨.endIndex id, .ok stop⟩).ends = [.ok stop] := by
    show Except.ok stop :: r.ends = _
    rw [hends]
  exact {
    asked := congrArg (ServiceCall.endIndex id :: ·) h.asked
    document := List.forall_mem_cons.2 ⟨rfl, h.document⟩
    submitsOnce := h.submitsOnce
    refused := h.refused
    handedOn := h.handedOn
    unsubmitted := by
      intro hnil
      obtain ⟨e, hresult, own | ⟨x, -, hmem⟩⟩ := h.unsubmitted hnil
      · exact ⟨e, hresult, .inl own⟩
      · rw [hends] at hmem
        cases hmem
    asksEndOnce := by rw [hends']; exact Nat.le_refl 1
    asksEndOnlyToClear := fun _ => ⟨id, start, rfl⟩
    asksEndFirst := List.pairwise_cons.2 ⟨fun _ _ _ => rfl, h.asksEndFirst⟩
    endFailed := by
      rw [hends']
      intro e hmem
      cases List.mem_singleton.1 hmem }

theorem Flow.Course.disciplined {f : Flow}
    {d : Dialogue documentService (Except SubmitError Submitted)} (h : f.Course d) (s : σ) :
    Disciplined f (.ofDialogue answer d s) := by
  cases h with
  | settle h => exact h.disciplined answer s
  | @askEnd id start next hfailed hknown =>
    have hround : Round.ofDialogue answer (.ask (.endIndex id) next) s =
      (Round.ofDialogue answer (next (answer (.endIndex id) s).1) (answer (.endIndex id) s).2).after
        ⟨.endIndex id, (answer (.endIndex id) s).1⟩ := rfl
    rw [hround]
    rcases answer (.endIndex id) s with ⟨e | stop, s'⟩
    · simp only [hfailed]
      exact {
        asked := rfl
        document := List.forall_mem_cons.2 ⟨rfl, List.forall_mem_nil _⟩
        submitsOnce := Nat.zero_le 1
        refused := fun _ _ _ => rfl
        handedOn := fun _ _ hmem => absurd hmem List.not_mem_nil
        unsubmitted := fun _ => ⟨.service e, rfl, .inr ⟨e, rfl, List.mem_singleton.2 rfl⟩⟩
        asksEndOnce := Nat.le_refl 1
        asksEndOnlyToClear := fun _ => ⟨id, start, rfl⟩
        asksEndFirst := List.pairwise_singleton _ _
        endFailed := by
          intro e' hmem
          cases List.mem_singleton.1 hmem
          exact ⟨rfl, rfl⟩ }
    · have hsettles := hknown stop
      have hrest : Disciplined (.clear id start none) (Round.ofDialogue answer (next (.ok stop)) s') :=
        Settles.disciplined (f := .clear id start none) answer hsettles s'
      exact hrest.after_end (hsettles.ends answer s') stop

/-- One flow, held with the service in any state. -/
theorem disciplined_round (f : Flow) (s : σ) : Disciplined f (f.round answer s) :=
  f.course.disciplined answer s

/-- **Every flow of every session is disciplined**, whatever the service answers: it submits at most
once, and not at all after an error of its own; what it submitted is answered with the very reply or
error of the service; it asks for the end of the document at most once, before it submits, and only
to clear up to an end that is not given; and where that fails it submits nothing. -/
theorem session_disciplined (flows : List Flow) (s : σ) :
    (session answer flows s).map Prod.fst = flows ∧
    ∀ f r, (f, r) ∈ session answer flows s → Disciplined f r := by
  induction flows generalizing s with
  | nil => exact ⟨rfl, fun _ _ hmem => absurd hmem List.not_mem_nil⟩
  | cons f flows ih =>
    obtain ⟨hflows, hrest⟩ := ih (f.round answer s).transcript.state
    refine ⟨congrArg (f :: ·) hflows, fun f' r hmem => ?_⟩
    rcases List.mem_cons.1 hmem with hfirst | hmem
    · cases hfirst
      exact disciplined_round answer f s
    · exact hrest f' r hmem

end Disciplined

/-- An empty document is not cleared, a rejection is handed on, and no requests means no call. -/
example :
    (session ScriptedService.answer
      [.clear "doc" none none, .clear "doc" none (some 4), .apply "doc" (.object [])]
      ⟨[.error (.rejected 400 "bad range")], .ok 1⟩).map
        (fun (_, r) => (r.result, r.submissions.length, r.ends.length)) =
      [(.error (.input (.emptyRange 1 0)), 0, 1),
        (.error (.service (.rejected 400 "bad range")), 1, 0),
        (.error (.input .missingRequests), 0, 0)] := rfl

end MarkdownEdits
