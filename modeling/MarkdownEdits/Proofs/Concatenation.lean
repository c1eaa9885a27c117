import MarkdownEdits.Proofs.WellFormed

/-!
# Compiling blocks behind blocks

A block looks at the cursor and at nothing else: not at the blocks around it, and not at the edits
there are already. So a list of blocks may be compiled in two parts, the second from the offset at
which the first stops, and the two compilations put together are the compilation of the whole
(`compile_append`). Offsets are carried on by the cursor; only the indices of edits are moved.
-/

namespace MarkdownEdits

/-! ### Compilations behind one another -/

/-- The record of a block whose edits stand behind `count` others. -/
def BlockRecord.behind (count : Nat) (b : BlockRecord) : BlockRecord :=
  ⟨count + b.first, count + b.stop, b.offsets⟩

/-- Two compilations as one: the edits of the second stand behind those of the first. -/
def Compilation.append (c d : Compilation) : Compilation :=
  ⟨c.edits ++ d.edits, c.blocks ++ d.blocks.map (BlockRecord.behind c.edits.length),
    c.initialOffset, d.finalOffset⟩

/-! ### The initial offset is where the cursor starts, and no more -/

section InitialOffset

variable (o : Options) (n : Nat)

theorem lower_initialOffset (c : Cursor) (token : BlockToken) :
    token.lower { o with initialOffset := n } c = token.lower o c := by
  cases token with
  | paragraph text inline => rcases inline with _ | _ | ⟨token, tokens⟩ <;> rfl
  | _ => rfl

theorem lowerAll_initialOffset (c : Cursor) (tokens : List BlockToken) :
    lowerAll { o with initialOffset := n } c tokens = lowerAll o c tokens := by
  induction tokens generalizing c with
  | nil => rfl
  | cons token tokens ih => rw [lowerAll_cons, lowerAll_cons, lower_initialOffset, ih]

theorem records_initialOffset (first : Nat) (c : Cursor) (tokens : List BlockToken) :
    records { o with initialOffset := n } first c tokens = records o first c tokens := by
  induction tokens generalizing first c with
  | nil => rfl
  | cons token tokens ih =>
    simp only [records, recordAt, lower_initialOffset, ih]

end InitialOffset

/-! ### Records -/

section Records

variable (o : Options)

/-- Edits that come before a block move its record by their number, and leave its offsets. -/
theorem records_behind (count first : Nat) (c : Cursor) (tokens : List BlockToken) :
    records o (count + first) c tokens = (records o first c tokens).map (.behind count) := by
  induction tokens generalizing first c with
  | nil => rfl
  | cons token tokens ih =>
    rw [records, records, List.map_cons, Nat.add_assoc, ih]
    simp only [recordAt, BlockRecord.behind, Nat.add_assoc]

theorem records_append (first : Nat) (c : Cursor) (tokens more : List BlockToken) :
    records o first c (tokens ++ more) =
      records o first c tokens ++
        records o (first + (lowerAll o c tokens).2.length) (lowerAll o c tokens).1 more := by
  induction tokens generalizing first c with
  | nil => rfl
  | cons token tokens ih =>
    rw [List.cons_append, records, ih, records, lowerAll_cons, List.length_append, Nat.add_assoc]
    rfl

end Records

/-! ### Compiling -/

/-- The blocks behind `tokens` are assembled from where `tokens` stop. -/
theorem assemble_append (o : Options) (tokens more : List BlockToken) :
    assemble o (tokens ++ more) =
      (assemble o tokens).append
        (assemble { o with initialOffset := (assemble o tokens).finalOffset } more) := by
  have hrecords := records_append o 0 ⟨o.initialOffset⟩ tokens more
  rw [Nat.zero_add] at hrecords
  have hmoved := records_behind o (lowerAll o ⟨o.initialOffset⟩ tokens).2.length 0
    (lowerAll o ⟨o.initialOffset⟩ tokens).1 more
  rw [Nat.add_zero] at hmoved
  simp only [assemble_eq, Compilation.append, lowerAll_append, lowerAll_initialOffset,
    records_initialOffset, hrecords, hmoved]

/-- **Compilation is compositional.** Both parts compile, the second from the final offset of the
first, and so does the whole, to the two compilations behind one another. -/
theorem compile_append (o : Options) (tokens more : List BlockToken) :
    ∃ c d, compile o tokens = .ok c ∧
      compile { o with initialOffset := c.finalOffset } more = .ok d ∧
      compile o (tokens ++ more) = .ok (c.append d) := by
  refine ⟨assemble o tokens, assemble { o with initialOffset := (assemble o tokens).finalOffset } more,
    compile_eq, compile_eq, ?_⟩
  rw [compile_eq, assemble_append]

end MarkdownEdits
