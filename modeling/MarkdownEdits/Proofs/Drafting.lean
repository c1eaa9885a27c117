import MarkdownEdits.Proofs.FirstFault

/-!
# Drafts worked on step by step

A draft may be worked on by hand: its cursor is moved, edits are added, blocks are lowered and
recorded, in any order. What a step can do to a draft is said once (`Draft.step_eq`). It only ever
adds, and a lowered block keeps the cursor in step with the text, so that the check reports a drift
just where the moves and the insertions made by hand differ (`Draft.run_keepsAccount`).
-/

namespace MarkdownEdits

open Text

namespace Draft

/-! ### Steps -/

/-- One thing done to a draft. -/
inductive Step
  | advance (n : ℕ)
  | advanceOver (text : String)
  | insert (text : String)
  | push (e : Edit)
  | lower (o : Options) (token : BlockToken)
  | closeBlock (first : ℕ) (offsets : TextRange)
  deriving DecidableEq, Repr

def step (d : Draft) : Step → Draft
  | .advance n => d.advance n
  | .advanceOver text => d.advanceOver text
  | .insert text => d.insert text
  | .push e => d.push e
  | .lower o token => d.lower o token
  | .closeBlock first offsets => d.closeBlock first offsets

/-- The draft behind some steps. -/
def run (d : Draft) (steps : List Step) : Draft := steps.foldl step d

theorem run_append (d : Draft) (steps more : List Step) :
    d.run (steps ++ more) = (d.run steps).run more :=
  List.foldl_append

/-- How far a step moves the cursor by hand. -/
def Step.advanced : Step → ℕ
  | .advance n => n
  | .advanceOver text => utf16Length text
  | _ => 0

/-- The text that a step inserts by hand. -/
def Step.inserted? : Step → Option String
  | .insert text => some text
  | .push e => e.insertedText?
  | _ => none

/-- How far the cursor is moved by hand. -/
def advancedByHand (steps : List Step) : ℕ := (steps.map Step.advanced).sum

/-- The number of units in all texts inserted by hand. -/
def insertedByHand (steps : List Step) : ℕ :=
  ((steps.filterMap Step.inserted?).map utf16Length).sum

theorem advancedByHand_cons (s : Step) (steps : List Step) :
    advancedByHand (s :: steps) = s.advanced + advancedByHand steps := rfl

theorem insertedByHand_cons (s : Step) (steps : List Step) :
    insertedByHand (s :: steps) = insertedByHand [s] + insertedByHand steps := by
  rw [insertedByHand, insertedByHand, insertedByHand, ← List.sum_append, ← List.map_append,
    ← List.filterMap_append, List.singleton_append]

/-! ### What steps can do -/

/-- **What a step can do**: it moves the cursor on and adds edits and records. The moves and
insertions by hand make up the difference between how far the cursor goes and how long the added
text is. -/
theorem step_eq (d : Draft) (s : Step) :
    ∃ n edits blocks,
      d.step s = ⟨⟨d.cursor.offset + n⟩, d.edits ++ edits, d.blocks ++ blocks⟩ ∧
      insertedByHand [s] + n = s.advanced + insertedLength edits := by
  obtain ⟨⟨offset⟩, edits, blocks⟩ := d
  cases s with
  | advance n =>
    refine ⟨n, [], [], ?_, Nat.zero_add n⟩
    simp [step, Draft.advance, Cursor.advance]
  | advanceOver text =>
    refine ⟨utf16Length text, [], [], ?_, Nat.zero_add _⟩
    simp [step, Draft.advanceOver, Cursor.advanceOver, Cursor.advance]
  | insert text =>
    refine ⟨0, [.insertText text], [], ?_, ?_⟩
    · simp [step, Draft.insert, Draft.push]
    · simp [insertedByHand, Step.inserted?, Step.advanced, Edit.insertedLength]
  | push e =>
    refine ⟨0, [e], [], ?_, ?_⟩
    · simp [step, Draft.push]
    · have hunits : insertedLength [e] =
          ((([e].filterMap Edit.insertedText?)).map utf16Length).sum := insertedLength_eq_sum [e]
      rw [hunits]
      exact (Nat.zero_add _).symm
  | lower o token =>
    have hoffset := offset_lower o ⟨offset⟩ token
    refine ⟨insertedLength (token.lower o ⟨offset⟩).2, (token.lower o ⟨offset⟩).2, [], ?_, rfl⟩
    simp only [step, Draft.lower, List.append_nil, ← hoffset]
  | closeBlock first offsets =>
    refine ⟨0, [], [⟨first, edits.length, offsets⟩], ?_, rfl⟩
    simp [step, Draft.closeBlock]

/-- What any steps can do, by what each of them can. -/
theorem run_eq (d : Draft) (steps : List Step) :
    ∃ n edits blocks,
      d.run steps = ⟨⟨d.cursor.offset + n⟩, d.edits ++ edits, d.blocks ++ blocks⟩ ∧
      insertedByHand steps + n = advancedByHand steps + insertedLength edits := by
  induction steps generalizing d with
  | nil => exact ⟨0, [], [], by simp [run], rfl⟩
  | cons s steps ih =>
    obtain ⟨n, edits, blocks, hstep, hbalance⟩ := d.step_eq s
    obtain ⟨m, more, records, hrun, hrest⟩ := ih (d.step s)
    refine ⟨n + m, edits ++ more, blocks ++ records, ?_, ?_⟩
    · show (d.step s).run steps = _
      rw [hrun, hstep]
      simp only [Nat.add_assoc, List.append_assoc]
    · rw [insertedByHand_cons, advancedByHand_cons, insertedLength_append]
      omega

/-! ### The account -/

/-- **What holds of a draft that is worked on by hand**, from an empty one at `start` on. -/
structure KeepsAccount (start : ℕ) (steps : List Step) : Prop where
  /-- The edits of an earlier draft are a prefix of those of a later one. -/
  edits_grow : ∀ before middle after, steps = before ++ (middle ++ after) →
    ((Draft.start start).run before).edits <+: ((Draft.start start).run (before ++ middle)).edits
  blocks_grow : ∀ before middle after, steps = before ++ (middle ++ after) →
    ((Draft.start start).run before).blocks <+: ((Draft.start start).run (before ++ middle)).blocks
  /-- The cursor never goes back. -/
  cursor_grows : ∀ before middle after, steps = before ++ (middle ++ after) →
    ((Draft.start start).run before).cursor.offset ≤
      ((Draft.start start).run (before ++ middle)).cursor.offset
  /-- A block adds the edits that it adds to an empty draft with the cursor at the same offset, and
  the cursor moves on by the text in them. -/
  lowered : ∀ before o token after, steps = before ++ .lower o token :: after →
    let d := (Draft.start start).run before
    let next := (Draft.start start).run (before ++ [.lower o token])
    let alone := (Draft.start d.cursor.offset).run [.lower o token]
    next.edits = d.edits ++ alone.edits ∧ next.blocks = d.blocks ∧ next.cursor = alone.cursor ∧
      next.cursor.offset = d.cursor.offset + insertedUnits alone.edits
  /-- Apart from what is done by hand the cursor is as far from `start` as the text is long. -/
  balance : ((Draft.start start).run steps).cursor.offset + insertedByHand steps =
    start + advancedByHand steps + insertedUnits ((Draft.start start).run steps).edits
  /-- The check reports a drift just where the moves and the insertions by hand differ. -/
  drift : (∃ advanced inserted, (((Draft.start start).run steps).finish start).check =
      .error (.offsetDrift advanced inserted)) ↔
    advancedByHand steps ≠ insertedByHand steps

section Account

variable (d : Draft) (steps more : List Step)

theorem edits_run_append : (d.run steps).edits <+: (d.run (steps ++ more)).edits := by
  obtain ⟨n, edits, blocks, hrun, -⟩ := (d.run steps).run_eq more
  rw [run_append, hrun]
  exact List.prefix_append _ _

theorem blocks_run_append : (d.run steps).blocks <+: (d.run (steps ++ more)).blocks := by
  obtain ⟨n, edits, blocks, hrun, -⟩ := (d.run steps).run_eq more
  rw [run_append, hrun]
  exact List.prefix_append _ _

theorem offset_run_append :
    (d.run steps).cursor.offset ≤ (d.run (steps ++ more)).cursor.offset := by
  obtain ⟨n, edits, blocks, hrun, -⟩ := (d.run steps).run_eq more
  rw [run_append, hrun]
  exact Nat.le_add_right _ n

end Account

/-- Lowering a block looks at nothing but the cursor. -/
theorem step_lower (d : Draft) (o : Options) (token : BlockToken) :
    let alone := (Draft.start d.cursor.offset).run [.lower o token]
    d.step (.lower o token) = ⟨alone.cursor, d.edits ++ alone.edits, d.blocks⟩ ∧
      alone.cursor.offset = d.cursor.offset + insertedUnits alone.edits := by
  intro alone
  have halone : alone = ⟨(token.lower o d.cursor).1, (token.lower o d.cursor).2, []⟩ := rfl
  rw [halone]
  refine ⟨rfl, ?_⟩
  rw [insertedUnits, ← insertedLength_eq_sum]
  exact offset_lower o d.cursor token

theorem balance_run (start : ℕ) (steps : List Step) :
    ((Draft.start start).run steps).cursor.offset + insertedByHand steps =
      start + advancedByHand steps + insertedUnits ((Draft.start start).run steps).edits := by
  obtain ⟨n, edits, blocks, hrun, hbalance⟩ := (Draft.start start).run_eq steps
  rw [hrun, insertedUnits, ← insertedLength_eq_sum]
  simp only [Draft.start, List.nil_append]
  omega

/-- **A draft keeps account of its text**, whatever is done to it and in whatever order: nothing
that has been added is lost or changed, lowering a block is the same wherever it happens, and the
check tells a drift exactly where moves and insertions by hand do not match. -/
theorem run_keepsAccount (start : ℕ) (steps : List Step) : KeepsAccount start steps where
  edits_grow before middle _ _ := edits_run_append _ before middle
  blocks_grow before middle _ _ := blocks_run_append _ before middle
  cursor_grows before middle _ _ := offset_run_append _ before middle
  lowered before o token after _ := by
    intro d next alone
    obtain ⟨hstep, hoffset⟩ := d.step_lower o token
    have hnext : next = d.step (.lower o token) := run_append _ before [.lower o token]
    rw [hnext, hstep]
    exact ⟨rfl, rfl, rfl, hoffset⟩
  balance := balance_run start steps
  drift := by
    have hbalance := balance_run start steps
    have hstart : start ≤ ((Draft.start start).run steps).cursor.offset :=
      offset_run_append (Draft.start start) [] steps
    rw [Compilation.exists_check_eq_offsetDrift_iff hstart]
    simp only [Draft.finish]
    omega

/-- Text inserted by hand and a block: the cursor is moved over the text only afterwards, and then
the account is even. -/
example :
    let steps : List Step := [.insert "ab", .lower {} .blank, .advance 2]
    (((Draft.start 5).run steps).finish 5).check = .ok () ∧
      (((Draft.start 5).run steps.dropLast).finish 5).check = .error (.offsetDrift 1 3) :=
  ⟨rfl, rfl⟩

end Draft

end MarkdownEdits
