import MarkdownEdits.Compilation.Check

/-!
# What the check asks

The check scans for a first fault. Each scan comes out empty exactly when every edit, and every edit
of a block, is in order (`orderFault?_eq_none_iff`, `BlockRecord.fault?_eq_none_iff`), so passing
the check says the same without a scan (`Compilation.check_eq_ok_iff`).
-/

namespace MarkdownEdits

/-! ### Order of edits -/

theorem Edit.orderFault?_eq_none_iff {e : Edit} {index insertedEnd : Nat} :
    e.orderFault? index insertedEnd = none ↔
      ∀ r, e.range? = some r → r.start ≤ r.stop ∧ r.stop ≤ insertedEnd := by
  unfold Edit.orderFault?
  cases e.range? with
  | none => simp
  | some r =>
    simp only [Option.bind_some, Option.some.injEq, forall_eq']
    by_cases hi : r.stop < r.start
    · simp [hi, Nat.not_le.2 hi]
    · by_cases ha : insertedEnd < r.stop
      · simp [hi, ha, Nat.not_le.2 ha]
      · simp only [hi, ha, if_false, true_iff]
        omega

/-- **No edit is used too early**: every range is in order and ends in text that the edits before it
have left. -/
theorem orderFault?_eq_none_iff {es : List Edit} {index insertedEnd : Nat} :
    orderFault? index insertedEnd es = none ↔
      ∀ k e r, es[k]? = some e → e.range? = some r →
        r.start ≤ r.stop ∧ r.stop ≤ insertedEnd + insertedLength (es.take k) := by
  induction es generalizing index insertedEnd with
  | nil => simp [orderFault?]
  | cons f es ih =>
    rw [orderFault?, Option.or_eq_none_iff, Edit.orderFault?_eq_none_iff, ih]
    constructor
    · rintro ⟨hf, hes⟩ k e r hk hr
      cases k with
      | zero =>
        obtain rfl : f = e := by simpa using hk
        simpa using hf r hr
      | succ k =>
        rw [List.take_succ_cons, insertedLength_cons, ← Nat.add_assoc]
        exact hes k e r (by simpa using hk) hr
    · intro h
      refine ⟨fun r hr => by simpa using h 0 f r rfl hr, fun k e r hk hr => ?_⟩
      have := h (k + 1) e r (by simpa using hk) hr
      rw [List.take_succ_cons, insertedLength_cons, ← Nat.add_assoc] at this
      exact this

/-! ### Edits of blocks -/

/-- The edit's range, if it has one, lies in the block. -/
def Edit.Within (e : Edit) (block : TextRange) : Prop :=
  ∀ r, e.range? = some r → block.start ≤ r.start ∧ r.stop ≤ block.stop

theorem Edit.blockFault?_eq_none_iff {e : Edit} {index : Nat} {block : TextRange} :
    e.blockFault? index block = none ↔ e.Within block := by
  unfold Edit.blockFault? Edit.Within
  cases e.range? with
  | none => simp
  | some r =>
    simp only [Option.bind_some, Option.some.injEq, forall_eq']
    by_cases h : r.start < block.start ∨ block.stop < r.stop
    · simp only [h, if_true, reduceCtorEq, false_iff]
      omega
    · simp only [h, if_false, true_iff]
      omega

theorem BlockRecord.faultFrom?_eq_none_iff {b : BlockRecord} {operations index count : Nat}
    {es : List Edit} :
    b.faultFrom? operations index count es = none ↔
      ∀ j < count, ∃ e, es[j]? = some e ∧ e.Within b.offsets := by
  induction count generalizing index es with
  | zero => simp [faultFrom?]
  | succ count ih =>
    cases es with
    | nil =>
      simp only [faultFrom?, reduceCtorEq, false_iff]
      intro h
      obtain ⟨e, he, -⟩ := h 0 (by omega)
      simp at he
    | cons f es =>
      rw [faultFrom?, Option.or_eq_none_iff, Edit.blockFault?_eq_none_iff, ih]
      constructor
      · rintro ⟨hf, hes⟩ j hj
        cases j with
        | zero => exact ⟨f, rfl, hf⟩
        | succ j => simpa using hes j (by omega)
      · intro h
        obtain ⟨e, he, hw⟩ := h 0 (by omega)
        obtain rfl : f = e := by simpa using he
        exact ⟨hw, fun j hj => by simpa using h (j + 1) (by omega)⟩

/-- **A block is in order**: the edits it claims exist, and their ranges lie in it. -/
theorem BlockRecord.fault?_eq_none_iff {b : BlockRecord} {edits : List Edit} :
    b.fault? edits = none ↔
      ∀ k, b.first ≤ k → k < b.stop → ∃ e, edits[k]? = some e ∧ e.Within b.offsets := by
  unfold BlockRecord.fault?
  rw [faultFrom?_eq_none_iff]
  simp only [List.getElem?_drop]
  constructor
  · intro h k hk hs
    obtain ⟨e, he, hw⟩ := h (k - b.first) (by omega)
    rw [Nat.add_sub_of_le hk] at he
    exact ⟨e, he, hw⟩
  · intro h j hj
    exact h (b.first + j) (by omega) (by omega)

/-! ### The check -/

namespace Compilation

theorem drift?_eq_none_iff {c : Compilation} :
    c.drift? = none ↔ c.finalOffset - c.initialOffset = c.insertedLength := by
  unfold drift?
  split <;> simp_all

theorem check_eq_ok_iff_violation {c : Compilation} : c.check = .ok () ↔ c.violation? = none := by
  unfold check
  split <;> simp_all

/-- **What passes the check.** -/
theorem check_eq_ok_iff {c : Compilation} :
    c.check = .ok () ↔
      c.finalOffset - c.initialOffset = c.insertedLength ∧
      (∀ k e r, c.edits[k]? = some e → e.range? = some r →
        r.start ≤ r.stop ∧ r.stop ≤ c.initialOffset + MarkdownEdits.insertedLength (c.edits.take k)) ∧
      ∀ b ∈ c.blocks, ∀ k, b.first ≤ k → k < b.stop →
        ∃ e, c.edits[k]? = some e ∧ e.Within b.offsets := by
  rw [check_eq_ok_iff_violation, violation?, Option.or_eq_none_iff, Option.or_eq_none_iff,
    drift?_eq_none_iff, orderFault?_eq_none_iff, List.findSome?_eq_none_iff]
  simp only [BlockRecord.fault?_eq_none_iff]

end Compilation

end MarkdownEdits
