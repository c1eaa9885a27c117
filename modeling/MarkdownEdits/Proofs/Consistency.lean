import MarkdownEdits.Proofs.WellFormed

/-!
# What a passed check promises

Compilations of any origin are looked at here. The check is meant to let the consistent ones through
(`Compilation.Consistent`). Offsets are subtracted without going below zero, so one that moves back
counts as one that stays: where the final offset lies before the initial one, the check takes the
compilation for the one that ends where it starts. Nothing else gets past it
(`check_eq_ok_iff_consistent`).
-/

namespace MarkdownEdits

open Text

/-- The number of units in all texts that the edits insert. -/
def insertedUnits (edits : List Edit) : Nat :=
  ((edits.filterMap Edit.insertedText?).map utf16Length).sum

namespace Compilation

/-- **The offsets of a compilation can be relied on.** -/
structure Consistent (c : Compilation) : Prop where
  /-- The final offset is the initial one plus all that is inserted. -/
  conserved : c.finalOffset = c.initialOffset + insertedUnits c.edits
  /-- A range is in order and ends in text that the edits before it have left. -/
  ranges : ∀ k e r, c.edits[k]? = some e → e.range? = some r →
    r.start ≤ r.stop ∧ r.stop ≤ c.initialOffset + insertedUnits (c.edits.take k)
  /-- The edits that a block claims exist, and their ranges lie in the block. -/
  blocks : ∀ b ∈ c.blocks, ∀ k, b.first ≤ k → k < b.stop →
    ∃ e, c.edits[k]? = some e ∧
      ∀ r, e.range? = some r → b.offsets.start ≤ r.start ∧ r.stop ≤ b.offsets.stop

variable {c : Compilation}

/-- The check asks for all of consistency but the offsets, of which it asks the difference. -/
theorem check_eq_ok_iff_of_units :
    c.check = .ok () ↔
      c.finalOffset - c.initialOffset = insertedUnits c.edits ∧
      ({ c with finalOffset := c.initialOffset + insertedUnits c.edits } : Compilation).Consistent := by
  rw [check_eq_ok_iff, Compilation.insertedLength]
  simp only [insertedLength_eq_sum]
  constructor
  · rintro ⟨hdrift, hranges, hblocks⟩
    exact ⟨hdrift, rfl, hranges, hblocks⟩
  · rintro ⟨hdrift, -, hranges, hblocks⟩
    exact ⟨hdrift, hranges, hblocks⟩

/-- **What gets past the check**: the consistent compilations, and those whose final offset lies
before the initial one and which would be consistent if it did not. -/
theorem check_eq_ok_iff_consistent (c : Compilation) :
    c.check = .ok () ↔
      c.Consistent ∨
        c.finalOffset < c.initialOffset ∧
          ({ c with finalOffset := c.initialOffset } : Compilation).Consistent := by
  rw [check_eq_ok_iff_of_units]
  constructor
  · rintro ⟨hdrift, hconsistent⟩
    by_cases hback : c.finalOffset < c.initialOffset
    · -- the difference is zero, so nothing is inserted
      have hstop : c.initialOffset + insertedUnits c.edits = c.initialOffset := by omega
      rw [hstop] at hconsistent
      exact .inr ⟨hback, hconsistent⟩
    · have hstop : c.initialOffset + insertedUnits c.edits = c.finalOffset := by omega
      rw [hstop] at hconsistent
      exact .inl hconsistent
  · rintro (hconsistent | ⟨hback, hconsistent⟩)
    · have hstop := hconsistent.conserved
      exact ⟨by omega, rfl, hconsistent.ranges, hconsistent.blocks⟩
    · have hstop : c.initialOffset = c.initialOffset + insertedUnits c.edits :=
        hconsistent.conserved
      exact ⟨by omega, rfl, hconsistent.ranges, hconsistent.blocks⟩

/-- A compilation that starts at 5, inserts nothing and ends at 1 gets past the check. -/
theorem check_eq_ok_of_moved_back :
    (⟨[], [], 5, 1⟩ : Compilation).check = .ok () ∧
      ¬ (⟨[], [], 5, 1⟩ : Compilation).Consistent :=
  ⟨rfl, fun h => absurd h.conserved (by decide)⟩

end Compilation

end MarkdownEdits
