import MarkdownEdits.Proofs.Concatenation

/-!
# Compiling at another offset

The initial offset of a compilation is the origin of all its offsets, and nothing else depends on
it: compiled `k` offsets further on, the same blocks give the same edits with every range moved by
`k`, and records whose offsets are moved by `k` (`compile_offsetBy`). Each mark is measured from the
start of its line and each line from the cursor, so it is enough to move a line.
-/

namespace MarkdownEdits

open Text

/-! ### Moved compilations -/

/-- The edit with its range, if it has one, `k` offsets further on. -/
def Edit.offsetBy (k : Nat) : Edit → Edit
  | .insertText text => .insertText text
  | .paragraphStyle name r => .paragraphStyle name (r.offsetBy k)
  | .textStyle style r => .textStyle style (r.offsetBy k)
  | .listBullet preset r => .listBullet preset (r.offsetBy k)
  | .delete r => .delete (r.offsetBy k)

/-- The record of the same edits for a block that stands `k` offsets further on. -/
def BlockRecord.offsetBy (k : Nat) (b : BlockRecord) : BlockRecord :=
  ⟨b.first, b.stop, b.offsets.offsetBy k⟩

/-- The same compilation `k` offsets further on. -/
def Compilation.offsetBy (c : Compilation) (k : Nat) : Compilation :=
  ⟨c.edits.map (.offsetBy k), c.blocks.map (.offsetBy k), c.initialOffset + k, c.finalOffset + k⟩

theorem TextRange.ofLength_add (start k length : Nat) :
    TextRange.ofLength (start + k) length = (TextRange.ofLength start length).offsetBy k := by
  simp only [ofLength, offsetBy, Nat.add_right_comm]

theorem Mark.offsetBy_edit (m : Mark) (r : TextRange) (k : Nat) :
    (m.edit r).offsetBy k = m.edit (r.offsetBy k) := by
  cases m <;> rfl

/-! ### Lines -/

section Lines

variable (k : Nat)

theorem Run.edit?_add (run : Run) (offset : Nat) :
    run.edit? (offset + k) = (run.edit? offset).map (Edit.offsetBy k) := by
  unfold Run.edit?
  split
  · rfl
  · cases run.mark? with
    | none => rfl
    | some m =>
      simp only [Option.map_some, TextRange.ofLength_add, Mark.offsetBy_edit]

/-- The marks of a line move with the line. -/
theorem markEdits_add (offset : Nat) (runs : List Run) :
    markEdits (offset + k) runs = (markEdits offset runs).map (Edit.offsetBy k) := by
  induction runs generalizing offset with
  | nil => rfl
  | cons run runs ih =>
    rw [markEdits, markEdits, Nat.add_right_comm, ih, Run.edit?_add, List.map_append,
      Option.toList_map]

theorem lineEdits_add (offset : Nat) (runs : List Run) :
    lineEdits (offset + k) runs = (lineEdits offset runs).map (Edit.offsetBy k) := by
  rw [lineEdits, markEdits_add, lineEdits, List.map_cons]
  rfl

theorem Cursor.advance_right_comm (c : Cursor) (m n : Nat) :
    (c.advance m).advance n = (c.advance n).advance m := by
  simp only [advance, Nat.add_right_comm]

/-- **Lines move with the cursor.** -/
theorem lowerLines_advance (c : Cursor) (lines : List (List Run)) :
    lowerLines (c.advance k) lines =
      ((lowerLines c lines).1.advance k, (lowerLines c lines).2.map (Edit.offsetBy k)) := by
  induction lines generalizing c with
  | nil => rfl
  | cons line lines ih =>
    have hline : lineEdits (c.advance k).offset line =
        (lineEdits c.offset line).map (Edit.offsetBy k) := lineEdits_add k c.offset line
    rw [lowerLines_cons, lowerLines_cons, Cursor.advanceOver, Cursor.advance_right_comm, ih, hline,
      List.map_append]
    rfl

end Lines

/-! ### Blocks -/

section Blocks

variable (o : Options) (k : Nat)

theorem lower_advance (c : Cursor) (token : BlockToken) :
    token.lower o (c.advance k) =
      ((token.lower o c).1.advance k, (token.lower o c).2.map (Edit.offsetBy k)) := by
  rw [lower_eq_lowerLines, lower_eq_lowerLines, lowerLines_advance]

theorem lowerAll_advance (c : Cursor) (tokens : List BlockToken) :
    lowerAll o (c.advance k) tokens =
      ((lowerAll o c tokens).1.advance k, (lowerAll o c tokens).2.map (Edit.offsetBy k)) := by
  rw [lowerAll_eq_lowerLines, lowerAll_eq_lowerLines, lowerLines_advance]

/-- A block has as many edits wherever it stands, so its record is moved in its offsets alone. -/
theorem records_advance (first : Nat) (c : Cursor) (tokens : List BlockToken) :
    records o first (c.advance k) tokens = (records o first c tokens).map (.offsetBy k) := by
  induction tokens generalizing first c with
  | nil => rfl
  | cons token tokens ih =>
    rw [records, records, List.map_cons, recordAt, lower_advance, List.length_map, ih]
    rfl

theorem assemble_offsetBy (tokens : List BlockToken) :
    assemble { o with initialOffset := o.initialOffset + k } tokens =
      (assemble o tokens).offsetBy k := by
  have hcursor : (⟨o.initialOffset + k⟩ : Cursor) = Cursor.advance ⟨o.initialOffset⟩ k := rfl
  rw [assemble_eq, assemble_eq, lowerAll_initialOffset, records_initialOffset, hcursor,
    lowerAll_advance, records_advance]
  rfl

end Blocks

/-- **Compilation is translation equivariant.** Blocks compile at any two offsets `k` apart, and the
two compilations differ in their offsets alone: the second has the same texts, names, styles and
presets in the same order and the same edits in each block, and all its ranges, the offsets of its
blocks and its final offset are those of the first, moved by just `k`. -/
theorem compile_offsetBy (o : Options) (tokens : List BlockToken) (k : Nat) :
    ∃ c, compile o tokens = .ok c ∧
      compile { o with initialOffset := o.initialOffset + k } tokens = .ok (c.offsetBy k) := by
  refine ⟨assemble o tokens, compile_eq, ?_⟩
  rw [compile_eq, assemble_offsetBy]

end MarkdownEdits
