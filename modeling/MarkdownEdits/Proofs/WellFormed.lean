import Mathlib.Algebra.GroupWithZero.Nat
import MarkdownEdits.Proofs.Assembly
import MarkdownEdits.Proofs.Checking

/-!
# Well-formed compilations

What holds of every compilation of blocks: it passes its check, its records tile the edits and the
offsets, and its ranges lie one behind the other, each in the text of its own block.
-/

namespace MarkdownEdits

open Text

/-! ### Edits in the middle -/

section Middle

variable {pre es post : List Edit} {k : Nat}

theorem getElem?_middle (h1 : pre.length ≤ k) (h2 : k < pre.length + es.length) :
    (pre ++ (es ++ post))[k]? = es[k - pre.length]? := by
  rw [List.getElem?_append_right h1, List.getElem?_append_left (by omega)]

theorem take_middle (h1 : pre.length ≤ k) (h2 : k < pre.length + es.length) :
    (pre ++ (es ++ post)).take k = pre ++ es.take (k - pre.length) := by
  rw [List.take_append, List.take_of_length_le h1, List.take_append_of_le_length (by omega)]

theorem take_drop_middle {n : Nat} (h : n = pre.length) :
    ((pre ++ (es ++ post)).drop n).take es.length = es := by
  rw [List.drop_left' h.symm, List.take_left' rfl]

end Middle

theorem insertedLength_take_le (n : Nat) (es : List Edit) :
    insertedLength (es.take n) ≤ insertedLength es := by
  have := insertedLength_append (es.take n) (es.drop n)
  rw [List.take_append_drop] at this
  omega

theorem insertedLength_eq_sum (es : List Edit) :
    insertedLength es = ((es.filterMap Edit.insertedText?).map utf16Length).sum := by
  induction es with
  | nil => rfl
  | cons e es ih =>
    rw [insertedLength_cons, ih]
    cases e with
    | insertText text => rfl
    | _ => exact Nat.zero_add _

namespace Compilation

/-- **What a compilation of blocks is like.** -/
structure WellFormed (o : Options) (tokens : List BlockToken) (c : Compilation) : Prop where
  check : c.check = .ok ()
  initialOffset : c.initialOffset = o.initialOffset
  /-- There is one record for each block. -/
  length_blocks : c.blocks.length = tokens.length
  /-- The records stand in the order of the blocks: each is over the edits of its own block. -/
  blocks_in_order : ∀ (i : Nat) (token : BlockToken) (b : BlockRecord), tokens[i]? = some token →
    c.blocks[i]? = some b →
    token.lower o ⟨b.offsets.start⟩ =
      (⟨b.offsets.stop⟩, (c.edits.drop b.first).take (b.stop - b.first))
  edits_tiled : Tiles 0 (c.blocks.map fun b => (b.first, b.stop)) c.edits.length
  offsets_tiled : Tiles c.initialOffset
    (c.blocks.map fun b => (b.offsets.start, b.offsets.stop)) c.finalOffset
  /-- The offsets advance by what is inserted. -/
  conserved : c.finalOffset =
    c.initialOffset + ((c.edits.filterMap Edit.insertedText?).map utf16Length).sum
  insertion_first : ∀ b ∈ c.blocks, b.first < b.stop →
    ∃ text, c.edits[b.first]? = some (.insertText text)
  insertion_ne_empty : ∀ text, Edit.insertText text ∈ c.edits → text ≠ ""
  /-- A range is not empty, lies in its own block, and ends in text that exists by then. -/
  ranges : ∀ b ∈ c.blocks, ∀ k e r, b.first ≤ k → k < b.stop → c.edits[k]? = some e →
    e.range? = some r →
    r.start < r.stop ∧ b.offsets.start ≤ r.start ∧ r.stop ≤ b.offsets.stop ∧
      r.stop ≤ c.initialOffset + MarkdownEdits.insertedLength (c.edits.take k)
  increasing : (c.edits.filterMap Edit.range?).Pairwise fun r s => r.stop ≤ s.start

end Compilation

/-! ### What is assembled -/

section Assemble

variable {o : Options} {tokens : List BlockToken}

theorem placed_assemble :
    Placed (assemble o tokens).initialOffset (assemble o tokens).initialOffset
      (assemble o tokens).edits := by
  rw [assemble_eq]
  exact placed_lowerAll o ⟨o.initialOffset⟩ tokens

theorem finalOffset_assemble :
    (assemble o tokens).finalOffset =
      (assemble o tokens).initialOffset + insertedLength (assemble o tokens).edits := by
  rw [assemble_eq]
  exact offset_lowerAll o ⟨o.initialOffset⟩ tokens

/-- The edit at `k` in a block, as an edit of the whole batch: its range lies in the block. -/
theorem range_assemble {b : BlockRecord} (hb : b ∈ (assemble o tokens).blocks) {k : Nat} {e : Edit}
    {r : TextRange} (h1 : b.first ≤ k) (h2 : k < b.stop) (hk : (assemble o tokens).edits[k]? = some e)
    (hr : e.range? = some r) :
    r.start < r.stop ∧ b.offsets.start ≤ r.start ∧ r.stop ≤ b.offsets.stop ∧
      r.stop ≤ o.initialOffset + insertedLength ((assemble o tokens).edits.take k) := by
  obtain ⟨i, hi⟩ := List.mem_iff_getElem?.1 hb
  obtain ⟨token, es, post, -, hedits, hlower, hfirst, hstop, hstart, hend⟩ := assemble_block hi
  have hplaced : Placed b.offsets.start b.offsets.start es := by
    have := placed_lower o ⟨b.offsets.start⟩ token
    rwa [hlower] at this
  rw [hfirst] at h1
  rw [hstop, hfirst] at h2
  rw [hedits, getElem?_middle h1 h2] at hk
  obtain ⟨h3, h4, h5⟩ := hplaced.range (Nat.le_refl _) hk hr
  have hpart := insertedLength_take_le (k - (lowerAll o ⟨o.initialOffset⟩ (tokens.take i)).2.length) es
  rw [hedits, take_middle h1 h2, insertedLength_append]
  exact ⟨h4, h3, by omega, by omega⟩

theorem check_assemble : (assemble o tokens).check = .ok () := by
  refine Compilation.check_eq_ok_iff.2 ⟨?_, fun k e r hk hr => ?_, fun b hb k h1 h2 => ?_⟩
  · rw [finalOffset_assemble, Nat.add_sub_cancel_left]
    rfl
  · obtain ⟨-, h2, h3⟩ := placed_assemble.range (Nat.le_refl _) hk hr
    exact ⟨by omega, h3⟩
  · obtain ⟨i, hi⟩ := List.mem_iff_getElem?.1 hb
    obtain ⟨token, es, post, -, hedits, -, hfirst, hstop, -⟩ := assemble_block hi
    have hlength : k < (assemble o tokens).edits.length := by
      rw [hedits, List.length_append, List.length_append]
      omega
    refine ⟨_, List.getElem?_eq_getElem hlength, fun r hr => ?_⟩
    obtain ⟨-, h3, h4, -⟩ := range_assemble hb h1 h2 (List.getElem?_eq_getElem hlength) hr
    exact ⟨h3, h4⟩

/-- What is compiled is what is assembled. -/
theorem compile_eq : compile o tokens = .ok (assemble o tokens) := by
  show (assemble o tokens).check.map _ = _
  rw [check_assemble]
  rfl

theorem wellFormed_assemble : (assemble o tokens).WellFormed o tokens where
  check := check_assemble
  initialOffset := by rw [assemble_eq]
  length_blocks := by rw [assemble_eq]; exact length_records _ _ _
  blocks_in_order i token b ht hb := by
    obtain ⟨token', es, post, ht', hedits, hlower, hfirst, hstop, -⟩ := assemble_block hb
    obtain rfl : token = token' := Option.some.inj (ht.symm.trans ht')
    have hcount : b.stop - b.first = es.length := by omega
    rw [hlower, hedits, hcount, take_drop_middle hfirst]
  edits_tiled := by
    rw [assemble_eq]
    have := tiles_records_edits o 0 ⟨o.initialOffset⟩ tokens
    rwa [Nat.zero_add] at this
  offsets_tiled := by
    rw [assemble_eq]
    exact tiles_records_offsets o 0 ⟨o.initialOffset⟩ tokens
  conserved := by rw [← insertedLength_eq_sum, finalOffset_assemble]
  insertion_first b hb hlt := by
    obtain ⟨i, hi⟩ := List.mem_iff_getElem?.1 hb
    obtain ⟨token, es, post, -, hedits, hlower, hfirst, hstop, -⟩ := assemble_block hi
    have hpos : 0 < es.length := by omega
    have hne : (token.lower o ⟨b.offsets.start⟩).2 ≠ [] := by
      rw [hlower]
      exact List.ne_nil_of_length_pos hpos
    obtain ⟨text, htext⟩ := lower_insertion_first hne
    refine ⟨text, ?_⟩
    rw [hlower] at htext
    rw [hedits, hfirst, getElem?_middle (Nat.le_refl _) (Nat.lt_add_of_pos_right hpos), Nat.sub_self]
    exact htext
  insertion_ne_empty text ht := placed_assemble.insertion ht
  ranges b hb k e r h1 h2 hk hr := by
    have hinit : (assemble o tokens).initialOffset = o.initialOffset := by rw [assemble_eq]
    rw [hinit]
    exact range_assemble hb h1 h2 hk hr
  increasing := placed_assemble.increasing (Nat.le_refl _)

end Assemble

/-- **Compiling never fails, and its outcome is well formed.** -/
theorem compile_wellFormed (o : Options) (tokens : List BlockToken) :
    ∃ c, compile o tokens = .ok c ∧ c.WellFormed o tokens :=
  ⟨assemble o tokens, compile_eq, wellFormed_assemble⟩

end MarkdownEdits
