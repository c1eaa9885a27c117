import MarkdownEdits.Proofs.Consistency

/-!
# The fault that is reported

The check reports one fault, and which one is said here without a scan (`Compilation.FirstFault`):
the offsets come first, then the edits in their order, then the blocks in theirs, each with its edits
in order. What is consistent is not reported, and what is reported is the first fault there is.
-/

namespace MarkdownEdits

/-! ### The scan over edits -/

section Order

variable {e : Edit} {es : List Edit} {index insertedEnd : ℕ} {v : InvariantViolation}

/-- The fault of one edit: its range is inverted, or else it ends behind the text. -/
theorem Edit.orderFault?_eq_some_iff :
    e.orderFault? index insertedEnd = some v ↔
      ∃ r, e.range? = some r ∧
        (r.stop < r.start ∧ v = .invertedRange index r ∨
          r.start ≤ r.stop ∧ insertedEnd < r.stop ∧
            v = .rangeAheadOfInsertion index r insertedEnd) := by
  unfold Edit.orderFault?
  cases e.range? with
  | none => simp
  | some r =>
    simp only [Option.bind_some, Option.some.injEq, exists_eq_left']
    by_cases hinverted : r.stop < r.start
    · simp only [hinverted, if_true, Option.some.injEq, true_and, Nat.not_le.2 hinverted,
        false_and, or_false]
      exact eq_comm
    · have hordered := Nat.not_lt.1 hinverted
      by_cases hahead : insertedEnd < r.stop
      · simp only [hinverted, if_false, hahead, if_true, Option.some.injEq, false_and, false_or,
          hordered, true_and]
        exact eq_comm
      · simp [hinverted, hahead]

/-- **The scan over edits stops at the first one with a fault.** -/
theorem orderFault?_eq_some_iff :
    orderFault? index insertedEnd es = some v ↔
      ∃ k e, es[k]? = some e ∧ orderFault? index insertedEnd (es.take k) = none ∧
        e.orderFault? (index + k) (insertedEnd + insertedLength (es.take k)) = some v := by
  induction es generalizing index insertedEnd with
  | nil => simp [orderFault?]
  | cons f es ih =>
    rw [orderFault?]
    cases hf : f.orderFault? index insertedEnd with
    | some w =>
      rw [Option.some_or]
      constructor
      · intro h
        exact ⟨0, f, rfl, rfl, by simpa using hf.trans h⟩
      · rintro ⟨k, e, hk, hnone, he⟩
        cases k with
        | zero =>
          obtain rfl : f = e := by simpa using hk
          rw [← hf]
          simpa using he
        | succ k =>
          rw [List.take_succ_cons, orderFault?, hf] at hnone
          cases hnone
    | none =>
      have hindex : ∀ k, index + (k + 1) = index + 1 + k := fun k => by omega
      have hend : ∀ k, insertedEnd + insertedLength ((f :: es).take (k + 1)) =
          insertedEnd + f.insertedLength + insertedLength (es.take k) := fun k => by
        rw [List.take_succ_cons, insertedLength_cons, Nat.add_assoc]
      have hscan : ∀ k, orderFault? index insertedEnd ((f :: es).take (k + 1)) =
          orderFault? (index + 1) (insertedEnd + f.insertedLength) (es.take k) := fun k => by
        rw [List.take_succ_cons, orderFault?, hf, Option.none_or]
      rw [Option.none_or, ih]
      constructor
      · rintro ⟨k, e, hk, hnone, he⟩
        refine ⟨k + 1, e, hk, ?_, ?_⟩
        · rwa [hscan]
        · rwa [hend, hindex]
      · rintro ⟨k, e, hk, hnone, he⟩
        cases k with
        | zero =>
          obtain rfl : f = e := by simpa using hk
          have hsome : f.orderFault? index insertedEnd = some v := by simpa using he
          rw [hf] at hsome
          cases hsome
        | succ k =>
          rw [hscan] at hnone
          rw [hend, hindex] at he
          exact ⟨k, e, hk, hnone, he⟩

end Order

/-! ### The scan over a block -/

section Blocks

variable {e : Edit} {es : List Edit} {b : BlockRecord} {v : InvariantViolation}

theorem Edit.blockFault?_eq_some_iff {index : ℕ} {block : TextRange} :
    e.blockFault? index block = some v ↔
      ∃ r, e.range? = some r ∧ (r.start < block.start ∨ block.stop < r.stop) ∧
        v = .rangeOutsideBlock index r block := by
  unfold Edit.blockFault?
  cases e.range? with
  | none => simp
  | some r =>
    simp only [Option.bind_some, Option.some.injEq, exists_eq_left']
    by_cases h : r.start < block.start ∨ block.stop < r.stop
    · simp only [h, if_true, Option.some.injEq, true_and]
      exact eq_comm
    · simp [h]

/-- **The scan over a block stops at the first edit that is missing or has a fault.** -/
theorem BlockRecord.faultFrom?_eq_some_iff {operations index count : ℕ} :
    b.faultFrom? operations index count es = some v ↔
      ∃ j < count, b.faultFrom? operations index j es = none ∧
        ((es[j]? = none ∧ v = .missingOperation (index + j) operations) ∨
          ∃ e, es[j]? = some e ∧ e.blockFault? (index + j) b.offsets = some v) := by
  induction count generalizing index es with
  | zero => simp [faultFrom?]
  | succ count ih =>
    cases es with
    | nil =>
      rw [faultFrom?]
      constructor
      · intro h
        exact ⟨0, Nat.succ_pos _, rfl, .inl ⟨rfl, (Option.some.inj h).symm⟩⟩
      · rintro ⟨j, -, hnone, ⟨-, rfl⟩ | ⟨e, he, -⟩⟩
        · cases j with
          | zero => rfl
          | succ j => cases hnone
        · cases he
    | cons f es =>
      rw [faultFrom?]
      cases hf : f.blockFault? index b.offsets with
      | some w =>
        rw [Option.some_or]
        constructor
        · intro h
          exact ⟨0, Nat.succ_pos _, rfl, .inr ⟨f, rfl, hf.trans h⟩⟩
        · rintro ⟨j, -, hnone, hj⟩
          cases j with
          | zero =>
            obtain ⟨hmissing, -⟩ | ⟨e, he, hfault⟩ := hj
            · cases hmissing
            · obtain rfl : f = e := by simpa using he
              exact hf.symm.trans hfault
          | succ j =>
            rw [faultFrom?, hf] at hnone
            cases hnone
      | none =>
        have hindex : ∀ j, index + (j + 1) = index + 1 + j := fun j => by omega
        have hscan : ∀ j, b.faultFrom? operations index (j + 1) (f :: es) =
            b.faultFrom? operations (index + 1) j es := fun j => by
          rw [faultFrom?, hf, Option.none_or]
        rw [Option.none_or, ih]
        constructor
        · rintro ⟨j, hj, hnone, hfault⟩
          refine ⟨j + 1, Nat.succ_lt_succ hj, ?_, ?_⟩
          · rwa [hscan]
          · rwa [hindex]
        · rintro ⟨j, hj, hnone, hfault⟩
          cases j with
          | zero =>
            obtain ⟨hmissing, -⟩ | ⟨e, he, hsome⟩ := hfault
            · cases hmissing
            · obtain rfl : f = e := by simpa using he
              rw [Nat.add_zero, hf] at hsome
              cases hsome
          | succ j =>
            rw [hscan] at hnone
            rw [hindex] at hfault
            exact ⟨j, Nat.lt_of_succ_lt_succ hj, hnone, hfault⟩

/-- **The fault of a block** is that of its first edit that is missing or leaves the block. -/
theorem BlockRecord.fault?_eq_some_iff :
    b.fault? es = some v ↔
      ∃ k, b.first ≤ k ∧ k < b.stop ∧
        (∀ j, b.first ≤ j → j < k → ∃ e, es[j]? = some e ∧ e.Within b.offsets) ∧
        ((es[k]? = none ∧ v = .missingOperation k es.length) ∨
          ∃ e r, es[k]? = some e ∧ e.range? = some r ∧
            (r.start < b.offsets.start ∨ b.offsets.stop < r.stop) ∧
            v = .rangeOutsideBlock k r b.offsets) := by
  rw [fault?, faultFrom?_eq_some_iff]
  simp only [faultFrom?_eq_none_iff, List.getElem?_drop, Edit.blockFault?_eq_some_iff,
    exists_and_left]
  constructor
  · rintro ⟨j, hj, hbefore, hfault⟩
    refine ⟨b.first + j, Nat.le_add_right _ _, by omega, fun k hfirst hk => ?_, hfault⟩
    have hedit := hbefore (k - b.first) (by omega)
    rwa [Nat.add_sub_of_le hfirst] at hedit
  · rintro ⟨k, hfirst, hstop, hbefore, hfault⟩
    refine ⟨k - b.first, by omega, fun j hj => hbefore _ (Nat.le_add_right _ _) (by omega), ?_⟩
    rwa [Nat.add_sub_of_le hfirst]

end Blocks

/-! ### The first fault -/

namespace Compilation

section Vocabulary

variable (c : Compilation)

/-- Where the text of the document ends when the edit at an index is used. -/
def insertedEnd (k : ℕ) : ℕ := c.initialOffset + insertedUnits (c.edits.take k)

/-- The edit at an index, if it has a range, has one in order, which ends in text that is there. -/
def InOrder (k : ℕ) : Prop :=
  ∀ e r, c.edits[k]? = some e → e.range? = some r → r.start ≤ r.stop ∧ r.stop ≤ c.insertedEnd k

/-- There is an edit at the index, and its range, if it has one, lies in the block. -/
def InBlock (b : BlockRecord) (k : ℕ) : Prop :=
  ∃ e, c.edits[k]? = some e ∧ e.Within b.offsets

/-- What comes before the edit `k` of the block `i` is in order: all edits of earlier blocks, and the
earlier edits of this one. -/
def InBlocksBefore (i k : ℕ) : Prop :=
  ∀ i' b k', c.blocks[i']? = some b → b.first ≤ k' → k' < b.stop →
    (i' < i ∨ i' = i ∧ k' < k) → c.InBlock b k'

end Vocabulary

/-- **The first fault of a compilation.** -/
inductive FirstFault (c : Compilation) : InvariantViolation → Prop
  /-- The offsets are not as far apart as the inserted text is long. -/
  | drift {advanced : ℕ} (hadvanced : c.initialOffset + advanced = c.finalOffset)
      (h : advanced ≠ insertedUnits c.edits) :
      FirstFault c (.offsetDrift advanced (insertedUnits c.edits))
  /-- An edit has an inverted range. -/
  | inverted {k : ℕ} {e : Edit} {r : TextRange}
      (hoffsets : c.initialOffset + insertedUnits c.edits = c.finalOffset)
      (hbefore : ∀ j < k, c.InOrder j) (he : c.edits[k]? = some e) (hr : e.range? = some r)
      (h : r.stop < r.start) : FirstFault c (.invertedRange k r)
  /-- An edit has a range in order, which ends behind the text. -/
  | ahead {k : ℕ} {e : Edit} {r : TextRange}
      (hoffsets : c.initialOffset + insertedUnits c.edits = c.finalOffset)
      (hbefore : ∀ j < k, c.InOrder j) (he : c.edits[k]? = some e) (hr : e.range? = some r)
      (hordered : r.start ≤ r.stop) (h : c.insertedEnd k < r.stop) :
      FirstFault c (.rangeAheadOfInsertion k r (c.insertedEnd k))
  /-- A block claims an edit that does not exist. -/
  | missing {i k : ℕ} {b : BlockRecord}
      (hoffsets : c.initialOffset + insertedUnits c.edits = c.finalOffset)
      (hedits : ∀ j, c.InOrder j) (hb : c.blocks[i]? = some b) (hfirst : b.first ≤ k)
      (hstop : k < b.stop) (hbefore : c.InBlocksBefore i k) (h : c.edits[k]? = none) :
      FirstFault c (.missingOperation k c.edits.length)
  /-- The range of an edit leaves the block. -/
  | outside {i k : ℕ} {b : BlockRecord} {e : Edit} {r : TextRange}
      (hoffsets : c.initialOffset + insertedUnits c.edits = c.finalOffset)
      (hedits : ∀ j, c.InOrder j) (hb : c.blocks[i]? = some b) (hfirst : b.first ≤ k)
      (hstop : k < b.stop) (hbefore : c.InBlocksBefore i k) (he : c.edits[k]? = some e)
      (hr : e.range? = some r) (h : r.start < b.offsets.start ∨ b.offsets.stop < r.stop) :
      FirstFault c (.rangeOutsideBlock k r b.offsets)

section Scans

variable {c : Compilation} {v : InvariantViolation}

theorem insertedLength_eq_units : c.insertedLength = insertedUnits c.edits :=
  insertedLength_eq_sum c.edits

theorem insertedEnd_eq (k : ℕ) :
    c.initialOffset + MarkdownEdits.insertedLength (c.edits.take k) = c.insertedEnd k := by
  rw [insertedEnd, insertedLength_eq_sum, insertedUnits]

theorem drift?_eq_some_iff (h : c.initialOffset ≤ c.finalOffset) :
    c.drift? = some v ↔
      ∃ advanced, c.initialOffset + advanced = c.finalOffset ∧
        advanced ≠ insertedUnits c.edits ∧ v = .offsetDrift advanced (insertedUnits c.edits) := by
  rw [drift?, insertedLength_eq_units]
  constructor
  · intro hdrift
    split at hdrift
    · cases hdrift
    · next hne => exact ⟨_, Nat.add_sub_of_le h, hne, (Option.some.inj hdrift).symm⟩
  · rintro ⟨advanced, hadvanced, hne, rfl⟩
    obtain rfl : c.finalOffset - c.initialOffset = advanced := by omega
    rw [if_neg hne]

theorem drift?_eq_none_iff_offsets (h : c.initialOffset ≤ c.finalOffset) :
    c.drift? = none ↔ c.initialOffset + insertedUnits c.edits = c.finalOffset := by
  rw [drift?_eq_none_iff, insertedLength_eq_units]
  omega

theorem orderFault?_take_eq_none_iff {k : ℕ} :
    orderFault? 0 c.initialOffset (c.edits.take k) = none ↔ ∀ j < k, c.InOrder j := by
  rw [orderFault?_eq_none_iff]
  constructor
  · intro h j hj e r he hr
    have hedit := h j e r (by rwa [List.getElem?_take_of_lt hj]) hr
    rwa [List.take_take, Nat.min_eq_left (Nat.le_of_lt hj), insertedEnd_eq] at hedit
  · intro h j e r he hr
    rw [List.getElem?_take] at he
    split at he
    · next hj =>
      rw [List.take_take, Nat.min_eq_left (Nat.le_of_lt hj), insertedEnd_eq]
      exact h j hj e r he hr
    · cases he

theorem orderFault?_edits_eq_none_iff :
    orderFault? 0 c.initialOffset c.edits = none ↔ ∀ j, c.InOrder j := by
  rw [orderFault?_eq_none_iff]
  simp only [insertedEnd_eq]
  rfl

/-- The scan over the edits of a compilation. -/
theorem orderFault?_edits_eq_some_iff :
    orderFault? 0 c.initialOffset c.edits = some v ↔
      ∃ k e r, (∀ j < k, c.InOrder j) ∧ c.edits[k]? = some e ∧ e.range? = some r ∧
        (r.stop < r.start ∧ v = .invertedRange k r ∨
          r.start ≤ r.stop ∧ c.insertedEnd k < r.stop ∧
            v = .rangeAheadOfInsertion k r (c.insertedEnd k)) := by
  rw [orderFault?_eq_some_iff]
  simp only [Edit.orderFault?_eq_some_iff, orderFault?_take_eq_none_iff, insertedEnd_eq,
    Nat.zero_add]
  constructor
  · rintro ⟨k, e, he, hbefore, r, hr, hfault⟩
    exact ⟨k, e, r, hbefore, he, hr, hfault⟩
  · rintro ⟨k, e, r, hbefore, he, hr, hfault⟩
    exact ⟨k, e, he, hbefore, r, hr, hfault⟩

/-- The scan over the blocks of a compilation. -/
theorem findSome?_blocks_eq_some_iff :
    (c.blocks.findSome? fun b => b.fault? c.edits) = some v ↔
      ∃ i b k, c.blocks[i]? = some b ∧ b.first ≤ k ∧ k < b.stop ∧ c.InBlocksBefore i k ∧
        ((c.edits[k]? = none ∧ v = .missingOperation k c.edits.length) ∨
          ∃ e r, c.edits[k]? = some e ∧ e.range? = some r ∧
            (r.start < b.offsets.start ∨ b.offsets.stop < r.stop) ∧
            v = .rangeOutsideBlock k r b.offsets) := by
  rw [List.findSome?_eq_some_iff]
  simp only [BlockRecord.fault?_eq_some_iff, BlockRecord.fault?_eq_none_iff]
  constructor
  · rintro ⟨before, b, behind, hblocks, ⟨k, hfirst, hstop, hedits, hfault⟩, hbefore⟩
    have hb : c.blocks[before.length]? = some b := by simp [hblocks]
    refine ⟨before.length, b, k, hb, hfirst, hstop, ?_, hfault⟩
    rintro i' b' k' hb' hfirst' hstop' (hearlier | ⟨rfl, hk⟩)
    · rw [hblocks, List.getElem?_append_left hearlier] at hb'
      exact hbefore b' (List.mem_of_getElem? hb') k' hfirst' hstop'
    · obtain rfl : b = b' := Option.some.inj (hb.symm.trans hb')
      exact hedits k' hfirst' hk
  · rintro ⟨i, b, k, hb, hfirst, hstop, hbefore, hfault⟩
    obtain ⟨hi, heq⟩ := List.getElem?_eq_some_iff.1 hb
    refine ⟨c.blocks.take i, b, c.blocks.drop (i + 1), ?_, ⟨k, hfirst, hstop, ?_, hfault⟩, ?_⟩
    · rw [← heq, ← List.drop_eq_getElem_cons hi, List.take_append_drop]
    · intro j hj hjk
      exact hbefore i b j hb hj (by omega) (.inr ⟨rfl, hjk⟩)
    · intro b' hb' k' hfirst' hstop'
      obtain ⟨i', hi'⟩ := List.mem_iff_getElem?.1 hb'
      rw [List.getElem?_take] at hi'
      split at hi'
      · next hearlier => exact hbefore i' b' k' hi' hfirst' hstop' (.inl hearlier)
      · cases hi'

theorem check_eq_error_iff : c.check = .error v ↔ c.violation? = some v := by
  unfold check
  split <;> simp_all

/-- A drift is reported where there is one: neither of the other scans finds any. -/
theorem check_eq_offsetDrift_iff {advanced inserted : ℕ} :
    c.check = .error (.offsetDrift advanced inserted) ↔
      c.drift? = some (.offsetDrift advanced inserted) := by
  rw [check_eq_error_iff, violation?, Option.or_eq_some_iff, Option.or_eq_some_iff,
    orderFault?_edits_eq_some_iff, findSome?_blocks_eq_some_iff]
  constructor
  · rintro (hdrift | ⟨-, hedits | ⟨-, hblocks⟩⟩)
    · exact hdrift
    · obtain ⟨_, _, _, -, -, -, ⟨-, hv⟩ | ⟨-, -, hv⟩⟩ := hedits <;> cases hv
    · obtain ⟨_, _, _, -, -, -, -, ⟨-, hv⟩ | ⟨_, _, -, -, -, hv⟩⟩ := hblocks <;> cases hv
  · exact .inl

/-- A drift is reported just where the offsets are not as far apart as the inserted text is long. -/
theorem exists_check_eq_offsetDrift_iff (h : c.initialOffset ≤ c.finalOffset) :
    (∃ advanced inserted, c.check = .error (.offsetDrift advanced inserted)) ↔
      c.finalOffset ≠ c.initialOffset + insertedUnits c.edits := by
  simp only [check_eq_offsetDrift_iff, drift?_eq_some_iff h]
  constructor
  · rintro ⟨_, _, advanced, hadvanced, hne, -⟩
    omega
  · intro hne
    exact ⟨_, _, _, Nat.add_sub_of_le h, by omega, rfl⟩

end Scans

/-- **The check raises no false alarm and names the first fault.** Where the offsets do not move back,
what is consistent passes, and a fault is reported just where it is the first one. -/
theorem check_names_first_fault {c : Compilation} (h : c.initialOffset ≤ c.finalOffset) :
    (c.Consistent → c.check = .ok ()) ∧ ∀ v, c.check = .error v ↔ c.FirstFault v := by
  refine ⟨fun hconsistent => (check_eq_ok_iff_consistent c).2 (.inl hconsistent), fun v => ?_⟩
  rw [check_eq_error_iff, violation?, Option.or_eq_some_iff, Option.or_eq_some_iff,
    drift?_eq_some_iff h, drift?_eq_none_iff_offsets h, orderFault?_edits_eq_some_iff,
    orderFault?_edits_eq_none_iff, findSome?_blocks_eq_some_iff]
  constructor
  · rintro (⟨advanced, hadvanced, hne, rfl⟩ | ⟨hoffsets, hedits | ⟨hedits, hblocks⟩⟩)
    · exact .drift hadvanced hne
    · obtain ⟨k, e, r, hbefore, he, hr, ⟨hinverted, rfl⟩ | ⟨hordered, hahead, rfl⟩⟩ := hedits
      · exact .inverted hoffsets hbefore he hr hinverted
      · exact .ahead hoffsets hbefore he hr hordered hahead
    · obtain ⟨i, b, k, hb, hfirst, hstop, hbefore, hfault⟩ := hblocks
      obtain ⟨hmissing, rfl⟩ | ⟨e, r, he, hr, hout, rfl⟩ := hfault
      · exact .missing hoffsets hedits hb hfirst hstop hbefore hmissing
      · exact .outside hoffsets hedits hb hfirst hstop hbefore he hr hout
  · intro hfault
    cases hfault with
    | drift hadvanced hne => exact .inl ⟨_, hadvanced, hne, rfl⟩
    | inverted hoffsets hbefore he hr hinverted =>
      exact .inr ⟨hoffsets, .inl ⟨_, _, _, hbefore, he, hr, .inl ⟨hinverted, rfl⟩⟩⟩
    | ahead hoffsets hbefore he hr hordered hahead =>
      exact .inr ⟨hoffsets, .inl ⟨_, _, _, hbefore, he, hr, .inr ⟨hordered, hahead, rfl⟩⟩⟩
    | missing hoffsets hedits hb hfirst hstop hbefore hmissing =>
      exact .inr ⟨hoffsets, .inr ⟨hedits, _, _, _, hb, hfirst, hstop, hbefore,
        .inl ⟨hmissing, rfl⟩⟩⟩
    | outside hoffsets hedits hb hfirst hstop hbefore he hr hout =>
      exact .inr ⟨hoffsets, .inr ⟨hedits, _, _, _, hb, hfirst, hstop, hbefore,
        .inr ⟨_, _, he, hr, hout, rfl⟩⟩⟩

/-- The second block leaves the first edit it claims outside, and claims another that does not
exist: the first of these faults is reported. -/
theorem check_names_first_fault_of_two_blocks :
    let c : Compilation :=
      ⟨[.insertText "ab\n", .textStyle .bold ⟨1, 3⟩], [⟨0, 2, ⟨1, 4⟩⟩, ⟨1, 3, ⟨2, 4⟩⟩], 1, 4⟩
    c.initialOffset ≤ c.finalOffset ∧
      c.check = .error (.rangeOutsideBlock 1 ⟨1, 3⟩ ⟨2, 4⟩) ∧
      c.FirstFault (.rangeOutsideBlock 1 ⟨1, 3⟩ ⟨2, 4⟩) := by
  intro c
  have hcheck : c.check = .error (.rangeOutsideBlock 1 ⟨1, 3⟩ ⟨2, 4⟩) := rfl
  exact ⟨by decide, hcheck, ((check_names_first_fault (by decide)).2 _).1 hcheck⟩

end Compilation

end MarkdownEdits
