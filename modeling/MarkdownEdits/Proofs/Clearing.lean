import MarkdownEdits.Proofs.JsonRange
import MarkdownEdits.Proofs.Session

/-!
# Clearing a document

A document is cleared up to an end that is given, or else up to its last position, which is read off
the document. Which runs of a clearing delete something, and what, is said here for every document
that a service may hold (`Submission.clear_clears`): a range that is not empty is deleted by one
request, which is also what a dry run shows, and otherwise nothing is submitted.
-/

namespace MarkdownEdits

/-! ### Where a document ends -/

namespace Json

/-- The elements of the body of a document. -/
def HasContent (document : Json) (elements : List Json) : Prop :=
  ∃ body, document.member? "body" = some body ∧ body.member? "content" = some (.array elements)

/-- The document ends at `n`: that is the `endIndex` of the last element of its body. -/
def EndsAt (document : Json) (n : ℕ) : Prop :=
  ∃ elements element, document.HasContent elements ∧ elements.getLast? = some element ∧
    element.member? "endIndex" = some (.ofNat n)

variable {document : Json}

theorem array?_eq_some_iff {v : Json} {items : List Json} :
    v.array? = some items ↔ v = .array items := by
  cases v <;> simp [array?]

theorem nat?_eq_some_iff {v : Json} {n : ℕ} : v.nat? = some n ↔ v = .ofNat n := by
  unfold nat?
  split
  · simp [ofNat, eq_comm]
  · next hne =>
    simp only [reduceCtorEq, false_iff]
    rintro rfl
    exact hne n rfl

/-- What is looked up in a document is its content. -/
theorem content_eq_some_iff {elements : List Json} :
    ((document.member? "body").bind fun body => (body.member? "content").bind array?) =
      some elements ↔ document.HasContent elements := by
  simp only [Option.bind_eq_some_iff, array?_eq_some_iff, exists_eq_right, HasContent]

/-- A document that was read from a text ends at a number of 64 bits. -/
theorem EndsAt.lt {n : ℕ} (h : document.EndsAt n) {text : String}
    (hread : parse? text = some document) : n < 2 ^ 64 := by
  obtain ⟨elements, element, ⟨body, hbody, hcontent⟩, hlast, hstop⟩ := h
  have harray : (Json.array elements).InRange :=
    ((inRange_of_parse? hread).member? hbody).member? hcontent
  have helement := inRangeItems_iff.1 harray element (List.mem_of_getLast? hlast)
  exact (helement.member? hstop).lt_of_ofNat

end Json

section EndIndex

variable {document : Json}

theorem endIndexOf_of_endsAt {n : ℕ} (h : document.EndsAt n) : endIndexOf document = .ok n := by
  obtain ⟨elements, element, hcontent, hlast, hstop⟩ := h
  rw [endIndexOf, Json.content_eq_some_iff.2 hcontent]
  simp only [hlast, Option.bind_some, hstop]
  rfl

/-- A document has one end. -/
theorem Json.EndsAt.unique {n n' : ℕ} (h : document.EndsAt n) (h' : document.EndsAt n') : n = n' :=
  Except.ok.inj ((endIndexOf_of_endsAt h).symm.trans (endIndexOf_of_endsAt h'))

theorem endIndexOf_of_no_content (h : ∀ elements, ¬ document.HasContent elements) :
    endIndexOf document = .error (.invalidResponse "document has no body content") := by
  unfold endIndexOf
  split
  · rfl
  · next elements helements => exact absurd (Json.content_eq_some_iff.1 helements) (h elements)

theorem endIndexOf_of_no_end {elements : List Json} (hcontent : document.HasContent elements)
    (h : ∀ n, ¬ document.EndsAt n) :
    endIndexOf document = .error (.invalidResponse "body content has no endIndex") := by
  rw [endIndexOf, Json.content_eq_some_iff.2 hcontent]
  dsimp only
  split
  · rfl
  · next n hn =>
    obtain ⟨element, hlast, hn⟩ := Option.bind_eq_some_iff.1 hn
    obtain ⟨v, hv, hn⟩ := Option.bind_eq_some_iff.1 hn
    obtain rfl := Json.nat?_eq_some_iff.1 hn
    exact absurd ⟨elements, element, hcontent, hlast, hv⟩ (h n)

end EndIndex

/-! ### Runs of a clearing -/

/-- Where a clearing stops: at the end that is given, or else ahead of the document's last unit. -/
inductive ClearsUpTo (document : Json) : Option ℕ → ℕ → Prop
  | given (stop : ℕ) : ClearsUpTo document (some stop) stop
  | last {n : ℕ} (h : document.EndsAt n) : ClearsUpTo document none (n - 1)

/-- What the service is asked for the end of the range. -/
def endQuestions (id : String) : Option ℕ → List ServiceCall
  | some _ => []
  | none => [.endIndex id]

section Runs

variable {σ : Type} (submit : String → Json → σ → Except ServiceError Json × σ) (id : String)
  (start : Option ℕ) (s : σ)

/-- A service that holds a document. It answers a submission as it likes. -/
def holding (document : Json) : (call : ServiceCall) → σ → call.Answer × σ
  | .submit id body, s => submit id body s
  | .endIndex _, s => (endIndexOf document, s)

variable {document : Json} {stop : Option ℕ}

/-- Without an end a clearing asks for one, and goes on as with the end that it is told. -/
theorem clearRange_none_run :
    (Submission.clearRange id start none).run = .ask (.endIndex id) fun
      | .error e => .done (.error (.service e))
      | .ok n => (Submission.clearRange id start (some (n - 1))).run := by
  refine congrArg (Dialogue.ask _) (funext fun answer => ?_)
  cases answer <;> rfl

/-- A range whose end can be told is checked, and nothing is submitted. -/
theorem run_clearRange {e : ℕ} (h : ClearsUpTo document stop e) :
    (Submission.clearRange id start stop).run.run (holding submit document) s =
      ⟨(Submission.clearEdits (start.getD Submission.bodyStart) e).mapError .input, s,
        endQuestions id stop⟩ := by
  cases h with
  | given => rfl
  | last h =>
    rw [clearRange_none_run, Dialogue.run]
    simp only [holding, endIndexOf_of_endsAt h]
    rfl

theorem run_clearRange_of_no_end {e : ServiceError} (h : endIndexOf document = .error e) :
    (Submission.clearRange id start none).run.run (holding submit document) s =
      ⟨.error (.service e), s, endQuestions id none⟩ := by
  rw [clearRange_none_run, Dialogue.run]
  simp only [holding, h]
  rfl

/-- A clearing ends with the error that its dry run ends with. -/
theorem run_clear_of_error {e : SubmitError} {asked : List ServiceCall}
    (h : (Submission.clearRange id start stop).run.run (holding submit document) s =
      ⟨.error e, s, asked⟩) :
    (Submission.clear id start stop).run.run (holding submit document) s =
      ⟨.error e, s, asked⟩ := by
  have hrest : (ExceptT.bindCont (Submission.submitEdits id) (.error e) :
      Dialogue documentService _).run (holding submit document) s = ⟨.error e, s, []⟩ := rfl
  have hrun := Dialogue.run_bind _ (ExceptT.bindCont (Submission.submitEdits id)) h hrest
  rwa [List.append_nil] at hrun

/-- A clearing sends the batch that its dry run shows. -/
theorem run_clear_of_ok {edits : List Edit} {asked : List ServiceCall}
    (h : (Submission.clearRange id start stop).run.run (holding submit document) s =
      ⟨.ok edits, s, asked⟩) :
    (Submission.clear id start stop).run.run (holding submit document) s =
      ⟨reported edits.length (submit id (batchJson edits).sorted s).1,
        (submit id (batchJson edits).sorted s).2,
        asked ++ [.submit id (batchJson edits).sorted]⟩ := by
  have hrest : (ExceptT.bindCont (Submission.submitEdits id) (.ok edits) :
      Dialogue documentService _).run (holding submit document) s =
        ⟨reported edits.length (submit id (batchJson edits).sorted s).1,
          (submit id (batchJson edits).sorted s).2, [.submit id (batchJson edits).sorted]⟩ := by
    show Transcript.mk _ _ _ = _
    rcases submit id (batchJson edits).sorted s with ⟨reply | reply, s'⟩ <;> rfl
  exact Dialogue.run_bind _ (ExceptT.bindCont (Submission.submitEdits id)) h hrest

end Runs

/-- The body of the one request that deletes a range. -/
def deletion (start stop : ℕ) : Json :=
  .object [("requests", .array [.object [("deleteContentRange", .object [("range",
    .object [("endIndex", .ofNat stop), ("startIndex", .ofNat start)])])]])]

theorem sorted_batchJson_delete (start stop : ℕ) :
    (batchJson [.delete ⟨start, stop⟩]).sorted = deletion start stop := by
  have hnames : ("endIndex" : String) < "startIndex" := by decide
  have hrange : (TextRange.json ⟨start, stop⟩).sorted =
      .object [("endIndex", .ofNat stop), ("startIndex", .ofNat start)] := by
    simp [TextRange.json, Json.sorted, Json.sortedMembers, Json.sortMembers, Json.insertMember,
      Json.ofNat, hnames]
  rw [batchJson, Json.sorted_singleton]
  show Json.object [("requests", .array [(Edit.json (.delete ⟨start, stop⟩)).sorted])] = _
  rw [Edit.json, Json.sorted_singleton, Json.sorted_singleton, hrange, deletion]

/-! ### What a clearing does -/

section Clears

variable {σ : Type} (submit : String → Json → σ → Except ServiceError Json × σ) (id : String)
  (start stop : Option ℕ) (s : σ)

/-- The run that only shows the batch. -/
abbrev dryRun (document : Json) : Transcript documentService σ (Except SubmitError (List Edit)) :=
  (Submission.clearRange id start stop).run.run (holding submit document) s

/-- The run that sends the batch. -/
abbrev fullRun (document : Json) : Transcript documentService σ (Except SubmitError Submitted) :=
  (Submission.clear id start stop).run.run (holding submit document) s

/-- Dry or not, the run ends with an error, and the service is asked for no more than the end. -/
def BothFail (document : Json) (e : SubmitError) : Prop :=
  dryRun submit id start stop s document = ⟨.error e, s, endQuestions id stop⟩ ∧
    fullRun submit id start stop s document = ⟨.error e, s, endQuestions id stop⟩

/-- **How a document is cleared.** -/
structure Clears (document : Json) : Prop where
  /-- Something is submitted if and only if the range is not empty. -/
  submits_iff : (∃ id' body, .submit id' body ∈ (fullRun submit id start stop s document).asked) ↔
    ∃ e, ClearsUpTo document stop e ∧ start.getD 1 < e
  /-- What is submitted is the deletion of the range, and that is also the batch that is shown. -/
  deletes : ∀ e, ClearsUpTo document stop e → start.getD 1 < e →
    let body := deletion (start.getD 1) e
    (∃ edits, dryRun submit id start stop s document = ⟨.ok edits, s, endQuestions id stop⟩ ∧
      (batchJson edits).sorted = body) ∧
    fullRun submit id start stop s document =
      ⟨reported 1 (submit id body s).1, (submit id body s).2,
        endQuestions id stop ++ [.submit id body]⟩
  /-- An end that is not given lies ahead of the last unit of the document. -/
  keepsLast : stop = none → ∀ n, document.EndsAt n → ∀ id' body,
    .submit id' body ∈ (fullRun submit id start stop s document).asked →
      ∃ e, e + 1 = n ∧ body = deletion (start.getD 1) e
  refuses : ∀ e, ClearsUpTo document stop e → e ≤ start.getD 1 →
    BothFail submit id start stop s document (.input (.emptyRange (start.getD 1) e))
  noContent : stop = none → (∀ elements, ¬ document.HasContent elements) →
    BothFail submit id start stop s document
      (.service (.invalidResponse "document has no body content"))
  noEnd : stop = none → ∀ elements, document.HasContent elements → (∀ n, ¬ document.EndsAt n) →
    BothFail submit id start stop s document
      (.service (.invalidResponse "body content has no endIndex"))
  /-- The end of a document that was read from a text fits into 64 bits. -/
  bounded : ∀ text, Json.parse? text = some document → ∀ n, document.EndsAt n → n < 2 ^ 64

variable {submit id start stop s} {document : Json}

theorem bothFail_of_dryRun {e : SubmitError}
    (h : dryRun submit id start stop s document = ⟨.error e, s, endQuestions id stop⟩) :
    BothFail submit id start stop s document e :=
  ⟨h, run_clear_of_error submit id start s h⟩

theorem BothFail.not_submitted {e : SubmitError} (h : BothFail submit id start stop s document e)
    (id' : String) (body : Json) :
    .submit id' body ∉ (fullRun submit id start stop s document).asked := by
  rw [h.2]
  cases stop <;> simp [endQuestions]

theorem bothFail_of_endIndexOf {e : ServiceError} (h : endIndexOf document = .error e) :
    BothFail submit id start none s document (.service e) :=
  bothFail_of_dryRun (run_clearRange_of_no_end submit id start s h)

/-- An end that cannot be told is an error. -/
theorem exists_bothFail (h : ∀ n, ¬ document.EndsAt n) :
    ∃ e, BothFail submit id start none s document e := by
  by_cases hcontent : ∃ elements, document.HasContent elements
  · obtain ⟨elements, hcontent⟩ := hcontent
    exact ⟨_, bothFail_of_endIndexOf (endIndexOf_of_no_end hcontent h)⟩
  · exact ⟨_, bothFail_of_endIndexOf (endIndexOf_of_no_content (not_exists.1 hcontent))⟩

section Range

variable {e : ℕ}

theorem bothFail_of_le (h : ClearsUpTo document stop e) (hempty : e ≤ start.getD 1) :
    BothFail submit id start stop s document (.input (.emptyRange (start.getD 1) e)) := by
  refine bothFail_of_dryRun ((run_clearRange submit id start s h).trans ?_)
  rw [Submission.bodyStart, Submission.clearEdits, if_pos hempty]
  rfl

theorem dryRun_of_lt (h : ClearsUpTo document stop e) (hlt : start.getD 1 < e) :
    dryRun submit id start stop s document =
      ⟨.ok [.delete ⟨start.getD 1, e⟩], s, endQuestions id stop⟩ := by
  refine (run_clearRange submit id start s h).trans ?_
  rw [Submission.bodyStart, Submission.clearEdits, if_neg (Nat.not_le.2 hlt)]
  rfl

theorem fullRun_of_lt (h : ClearsUpTo document stop e) (hlt : start.getD 1 < e) :
    fullRun submit id start stop s document =
      ⟨reported 1 (submit id (deletion (start.getD 1) e) s).1,
        (submit id (deletion (start.getD 1) e) s).2,
        endQuestions id stop ++ [.submit id (deletion (start.getD 1) e)]⟩ := by
  have hrun := run_clear_of_ok submit id start s (dryRun_of_lt h hlt)
  rwa [sorted_batchJson_delete] at hrun

/-- What is submitted deletes a range that is not empty. -/
theorem exists_of_submit_mem {id' : String} {body : Json}
    (hmem : .submit id' body ∈ (fullRun submit id start stop s document).asked) :
    ∃ e, ClearsUpTo document stop e ∧ start.getD 1 < e ∧ body = deletion (start.getD 1) e := by
  have hends : ∃ e, ClearsUpTo document stop e := by
    cases stop with
    | some stop => exact ⟨stop, .given stop⟩
    | none =>
      by_contra hnone
      obtain ⟨e, he⟩ := exists_bothFail fun n hn => hnone ⟨n - 1, .last hn⟩
      exact he.not_submitted id' body hmem
  obtain ⟨e, he⟩ := hends
  rcases Nat.lt_or_ge (start.getD 1) e with hlt | hempty
  · refine ⟨e, he, hlt, ?_⟩
    rw [fullRun_of_lt he hlt, List.mem_append] at hmem
    obtain hmem | hmem := hmem
    · cases stop <;> simp [endQuestions] at hmem
    · simp only [List.mem_singleton, ServiceCall.submit.injEq] at hmem
      exact hmem.2
  · exact absurd hmem ((bothFail_of_le he hempty).not_submitted id' body)

end Range

variable (submit id start stop s document)

/-- **Clearing a document deletes one range that is not empty, or nothing at all.** -/
theorem Submission.clear_clears : Clears submit id start stop s document where
  submits_iff := by
    constructor
    · rintro ⟨id', body, hmem⟩
      obtain ⟨e, he, hlt, -⟩ := exists_of_submit_mem hmem
      exact ⟨e, he, hlt⟩
    · rintro ⟨e, he, hlt⟩
      refine ⟨id, deletion (start.getD 1) e, ?_⟩
      rw [fullRun_of_lt he hlt]
      simp
  deletes e he hlt :=
    ⟨⟨_, dryRun_of_lt he hlt, sorted_batchJson_delete _ _⟩, fullRun_of_lt he hlt⟩
  keepsLast := by
    rintro rfl n hn id' body hmem
    obtain ⟨e, he, hlt, hbody⟩ := exists_of_submit_mem hmem
    cases he with
    | last hn' =>
      obtain rfl := hn'.unique hn
      exact ⟨_, by omega, hbody⟩
  refuses e he hempty := bothFail_of_le he hempty
  noContent := by
    rintro rfl hcontent
    exact bothFail_of_endIndexOf (endIndexOf_of_no_content hcontent)
  noEnd := by
    rintro rfl elements hcontent hend
    exact bothFail_of_endIndexOf (endIndexOf_of_no_end hcontent hend)
  bounded _ hread _ hn := hn.lt hread

end Clears

end MarkdownEdits
