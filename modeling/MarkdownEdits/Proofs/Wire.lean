import MarkdownEdits.Batch
import MarkdownEdits.Proofs.JsonMembers
import MarkdownEdits.Proofs.JsonReading
import MarkdownEdits.Proofs.Sequencing
import MarkdownEdits.Proofs.WellFormed
import MarkdownEdits.Submission

/-!
# Batches on the wire

The JSON of a batch is shallow, and its only numbers are the bounds of ranges. A batch whose ranges
end below `2 ^ 64` can therefore be printed and read back, and every compilation whose final offset
is that small has such ranges.
-/

namespace MarkdownEdits

open Json

/-! ### JSON of edits -/

section Fits

variable {depth : Nat}

theorem TextRange.fits_json {r : TextRange} (hstart : r.start < 2 ^ 64) (hstop : r.stop < 2 ^ 64) :
    Fits r.json (depth + 1) :=
  ⟨isExact_ofNat hstart, isExact_ofNat hstop, trivial⟩

theorem TextStyle.fits_json (s : TextStyle) : Fits s.json (depth + 2) := by
  cases s with
  | bold | italic => exact ⟨trivial, trivial⟩
  | link | font => exact ⟨⟨trivial, trivial⟩, trivial⟩

theorem Edit.fits_json {e : Edit}
    (h : ∀ r, e.range? = some r → r.start < 2 ^ 64 ∧ r.stop < 2 ^ 64) :
    Fits e.json (depth + 4) := by
  have hrange : ∀ r, e.range? = some r → Fits r.json (depth + 2) := fun r hr =>
    TextRange.fits_json (h r hr).1 (h r hr).2
  cases e with
  | insertText text => exact ⟨⟨trivial, trivial, trivial⟩, trivial⟩
  | paragraphStyle name r => exact ⟨⟨⟨trivial, trivial⟩, hrange r rfl, trivial, trivial⟩, trivial⟩
  | textStyle style r => exact ⟨⟨style.fits_json, hrange r rfl, trivial, trivial⟩, trivial⟩
  | listBullet preset r => exact ⟨⟨hrange r rfl, trivial, trivial⟩, trivial⟩
  | delete r => exact ⟨⟨hrange r rfl, trivial⟩, trivial⟩

end Fits

theorem fits_batchJson {edits : List Edit}
    (h : ∀ e ∈ edits, ∀ r, e.range? = some r → r.start < 2 ^ 64 ∧ r.stop < 2 ^ 64) :
    Fits (batchJson edits) maxDepth := by
  have hitems : FitsItems (edits.map Edit.json) (maxDepth - 2) := by
    rw [fitsItems_iff]
    intro v hv
    obtain ⟨e, he, rfl⟩ := List.mem_map.1 hv
    exact Edit.fits_json (h e he)
  exact ⟨hitems, trivial⟩

/-- A batch that has been read back holds as many requests as it has edits. -/
theorem requestCount_sorted_batchJson (edits : List Edit) :
    Submission.requestCount (batchJson edits).sorted = .ok edits.length := by
  have hsorted : (batchJson edits).sorted =
      .object [("requests", .array (sortedItems (edits.map Edit.json)))] := rfl
  rw [hsorted, sortedItems_eq_map]
  simp [Submission.requestCount, member?, array?]

/-! ### Ranges of compilations -/

section Compiled

variable {o : Options} {m : Markdown} {c : Compilation}

theorem compileMarkdown_eq_ok (h : compileMarkdown o m = .ok c) :
    ∃ tokens, lex m = .ok tokens ∧ c = assemble o tokens := by
  obtain ⟨tokens, hlex, h⟩ := Except.bind_eq_ok_iff.1 h
  rw [Except.mapError_eq_ok_iff] at hlex h
  rw [compile_eq] at h
  exact ⟨tokens, hlex, (Except.ok.inj h).symm⟩

/-- No range of a compilation ends behind its final offset. -/
theorem stop_le_finalOffset (h : compileMarkdown o m = .ok c) {e : Edit} (he : e ∈ c.edits)
    {r : TextRange} (hr : e.range? = some r) : r.start < r.stop ∧ r.stop ≤ c.finalOffset := by
  obtain ⟨tokens, -, rfl⟩ := compileMarkdown_eq_ok h
  obtain ⟨k, hk⟩ := List.mem_iff_getElem?.1 he
  obtain ⟨-, hlt, hle⟩ := placed_assemble.range (Nat.le_refl _) hk hr
  have htake := insertedLength_take_le k (assemble o tokens).edits
  rw [finalOffset_assemble]
  exact ⟨hlt, by omega⟩

/-- **A compilation with 64-bit offsets can be printed and read back.** -/
theorem fits_batchJson_of_compileMarkdown (h : compileMarkdown o m = .ok c)
    (hoffsets : c.finalOffset < 2 ^ 64) :
    Fits (batchJson c.edits) maxDepth := by
  refine fits_batchJson fun e he r hr => ?_
  obtain ⟨hlt, hle⟩ := stop_le_finalOffset h he hr
  exact ⟨by omega, by omega⟩

end Compiled

end MarkdownEdits
