import MarkdownEdits.Compilation.Compile
import MarkdownEdits.Proofs.Placement

/-!
# Assembling blocks

Blocks are added to a draft one by one. Seen from the outside the edits of a compilation are those
of its blocks behind one another (`lowerAll`), each lowered at the cursor that the blocks before it
have left, and the records count along (`records`).
-/

namespace MarkdownEdits

/-! ### Blocks behind one another -/

/-- The edits of several blocks from the cursor on. -/
def lowerAll (o : Options) (c : Cursor) : List BlockToken → Cursor × List Edit
  | [] => (c, [])
  | token :: tokens =>
    let (next, edits) := token.lower o c
    let (last, more) := lowerAll o next tokens
    (last, edits ++ more)

/-- The record of a block whose edits start at index `first`. -/
def recordAt (o : Options) (first : Nat) (c : Cursor) (token : BlockToken) : BlockRecord :=
  ⟨first, first + (token.lower o c).2.length, ⟨c.offset, (token.lower o c).1.offset⟩⟩

/-- The records of several blocks. -/
def records (o : Options) (first : Nat) (c : Cursor) : List BlockToken → List BlockRecord
  | [] => []
  | token :: tokens =>
    recordAt o first c token ::
      records o (first + (token.lower o c).2.length) (token.lower o c).1 tokens

section Blocks

variable (o : Options) (c : Cursor)

theorem lowerAll_cons (token : BlockToken) (tokens : List BlockToken) :
    lowerAll o c (token :: tokens) =
      ((lowerAll o (token.lower o c).1 tokens).1,
        (token.lower o c).2 ++ (lowerAll o (token.lower o c).1 tokens).2) := rfl

theorem lowerAll_append (tokens more : List BlockToken) :
    lowerAll o c (tokens ++ more) =
      ((lowerAll o (lowerAll o c tokens).1 more).1,
        (lowerAll o c tokens).2 ++ (lowerAll o (lowerAll o c tokens).1 more).2) := by
  induction tokens generalizing c with
  | nil => rfl
  | cons token tokens ih =>
    rw [List.cons_append, lowerAll_cons, ih, lowerAll_cons]
    simp only [List.append_assoc]

/-- **Lowering blocks is laying out the lines of all of them.** -/
theorem lowerAll_eq_lowerLines (tokens : List BlockToken) :
    lowerAll o c tokens = lowerLines c (tokens.flatMap (BlockToken.lines o)) := by
  induction tokens generalizing c with
  | nil => rfl
  | cons token tokens ih =>
    rw [lowerAll_cons, List.flatMap_cons, lowerLines_append, ih, lower_eq_lowerLines]

theorem offset_lowerAll (tokens : List BlockToken) :
    (lowerAll o c tokens).1.offset = c.offset + insertedLength (lowerAll o c tokens).2 := by
  rw [lowerAll_eq_lowerLines]
  exact offset_lowerLines c _

theorem placed_lowerAll (tokens : List BlockToken) :
    Placed c.offset c.offset (lowerAll o c tokens).2 := by
  rw [lowerAll_eq_lowerLines]
  refine placed_lowerLines fun line hline => ?_
  obtain ⟨token, -, hl⟩ := List.mem_flatMap.1 hline
  exact lineText_lines_ne_empty hl

end Blocks

/-! ### What a draft becomes -/

theorem foldl_addBlock (o : Options) (tokens : List BlockToken) (d : Draft) :
    tokens.foldl (Draft.addBlock o) d =
      ⟨(lowerAll o d.cursor tokens).1, d.edits ++ (lowerAll o d.cursor tokens).2,
        d.blocks ++ records o d.edits.length d.cursor tokens⟩ := by
  induction tokens generalizing d with
  | nil => simp [lowerAll, records]
  | cons token tokens ih =>
    rw [List.foldl_cons, ih, lowerAll_cons, records]
    simp [Draft.addBlock, Draft.lower, Draft.closeBlock, recordAt]

/-- **What is assembled from blocks.** -/
theorem assemble_eq (o : Options) (tokens : List BlockToken) :
    assemble o tokens =
      ⟨(lowerAll o ⟨o.initialOffset⟩ tokens).2, records o 0 ⟨o.initialOffset⟩ tokens,
        o.initialOffset, (lowerAll o ⟨o.initialOffset⟩ tokens).1.offset⟩ := by
  unfold assemble
  rw [foldl_addBlock]
  simp [Draft.start, Draft.finish]

/-! ### Records -/

section Records

variable {o : Options}

theorem length_records (first : Nat) (c : Cursor) (tokens : List BlockToken) :
    (records o first c tokens).length = tokens.length := by
  induction tokens generalizing first c with
  | nil => rfl
  | cons token tokens ih => rw [records, List.length_cons, ih, List.length_cons]

/-- The record at `i` is that of the block at `i`, lowered behind the blocks before it. -/
theorem getElem?_records {first : Nat} {c : Cursor} {tokens : List BlockToken} {i : Nat}
    {b : BlockRecord} (h : (records o first c tokens)[i]? = some b) :
    ∃ token, tokens[i]? = some token ∧
      b = recordAt o (first + (lowerAll o c (tokens.take i)).2.length)
        (lowerAll o c (tokens.take i)).1 token := by
  induction tokens generalizing first c i with
  | nil => simp [records] at h
  | cons token tokens ih =>
    cases i with
    | zero =>
      obtain rfl : recordAt o first c token = b := by simpa [records] using h
      exact ⟨token, rfl, rfl⟩
    | succ i =>
      obtain ⟨token', ht, rfl⟩ := ih (by simpa [records] using h)
      refine ⟨token', by simpa using ht, ?_⟩
      rw [List.take_succ_cons, lowerAll_cons, List.length_append, Nat.add_assoc]

/-- The edits of a compilation, cut at the block at `i`. -/
theorem lowerAll_split (c : Cursor) {tokens : List BlockToken} {i : Nat} {token : BlockToken}
    (h : tokens[i]? = some token) :
    ∃ more, (lowerAll o c tokens).2 = (lowerAll o c (tokens.take i)).2 ++
      ((token.lower o (lowerAll o c (tokens.take i)).1).2 ++ more) := by
  obtain ⟨hi, rfl⟩ := List.getElem?_eq_some_iff.1 h
  have hall : lowerAll o c tokens =
      lowerAll o c (tokens.take i ++ tokens[i] :: tokens.drop (i + 1)) := by
    rw [← List.drop_eq_getElem_cons hi, List.take_append_drop]
  refine ⟨(lowerAll o (tokens[i].lower o (lowerAll o c (tokens.take i)).1).1
    (tokens.drop (i + 1))).2, ?_⟩
  rw [hall, lowerAll_append, lowerAll_cons]

/-- **The place of a block.** The edits of the block at `i` stand behind those of the blocks before
it, and its record says where. -/
theorem assemble_block {tokens : List BlockToken} {i : Nat} {b : BlockRecord}
    (h : (assemble o tokens).blocks[i]? = some b) :
    ∃ token es post, tokens[i]? = some token ∧
      (assemble o tokens).edits = (lowerAll o ⟨o.initialOffset⟩ (tokens.take i)).2 ++ (es ++ post) ∧
      token.lower o ⟨b.offsets.start⟩ = (⟨b.offsets.stop⟩, es) ∧
      b.first = (lowerAll o ⟨o.initialOffset⟩ (tokens.take i)).2.length ∧
      b.stop = b.first + es.length ∧
      b.offsets.start =
        o.initialOffset + insertedLength (lowerAll o ⟨o.initialOffset⟩ (tokens.take i)).2 ∧
      b.offsets.stop = b.offsets.start + insertedLength es := by
  rw [assemble_eq] at h ⊢
  obtain ⟨token, ht, rfl⟩ := getElem?_records h
  obtain ⟨post, hpost⟩ := lowerAll_split (o := o) ⟨o.initialOffset⟩ ht
  refine ⟨token, _, post, ht, hpost, rfl, ?_, rfl, offset_lowerAll o _ _, offset_lower o _ _⟩
  simp only [recordAt, Nat.zero_add]

end Records

/-! ### Tilings -/

/-- The spans fill the stretch from `low` to `high`, each starting where the one before it stops. -/
def Tiles : Nat → List (Nat × Nat) → Nat → Prop
  | low, [], high => low = high
  | low, (start, stop) :: spans, high => start = low ∧ start ≤ stop ∧ Tiles stop spans high

/-- Each place of a tiled stretch lies in a span. -/
theorem Tiles.exists_span {low high : Nat} {spans : List (Nat × Nat)} (h : Tiles low spans high)
    {k : Nat} (hl : low ≤ k) (hh : k < high) :
    ∃ (i : Nat) (span : Nat × Nat), spans[i]? = some span ∧ span.1 ≤ k ∧ k < span.2 := by
  induction spans generalizing low with
  | nil =>
    obtain rfl : low = high := h
    omega
  | cons span spans ih =>
    obtain ⟨start, stop⟩ := span
    obtain ⟨rfl, -, htail⟩ := h
    by_cases hk : k < stop
    · exact ⟨0, _, rfl, hl, hk⟩
    · obtain ⟨i, span, hi, h1, h2⟩ := ih htail (by omega)
      exact ⟨i + 1, span, hi, h1, h2⟩

theorem tiles_records_edits (o : Options) (first : Nat) (c : Cursor) (tokens : List BlockToken) :
    Tiles first ((records o first c tokens).map fun b => (b.first, b.stop))
      (first + (lowerAll o c tokens).2.length) := by
  induction tokens generalizing first c with
  | nil => rfl
  | cons token tokens ih =>
    have htail := ih (first + (token.lower o c).2.length) (token.lower o c).1
    rw [lowerAll_cons, List.length_append, ← Nat.add_assoc]
    exact ⟨rfl, Nat.le_add_right _ _, htail⟩

theorem tiles_records_offsets (o : Options) (first : Nat) (c : Cursor) (tokens : List BlockToken) :
    Tiles c.offset ((records o first c tokens).map fun b => (b.offsets.start, b.offsets.stop))
      (lowerAll o c tokens).1.offset := by
  induction tokens generalizing first c with
  | nil => rfl
  | cons token tokens ih =>
    have hstep := offset_lower o c token
    exact ⟨rfl, by simp only [recordAt]; omega, ih _ _⟩

end MarkdownEdits
