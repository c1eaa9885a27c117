import MarkdownEdits.Proofs.Document
import MarkdownEdits.Proofs.WellFormed

/-!
# Replaying a compilation

Applying the edits of compiled blocks to a document renders the blocks at its end: every unit is
there, in order and with its own marks, and no range reaches text that is missing or another block's.
-/

namespace MarkdownEdits

/-- **The units of a block in a document**, with their marks. -/
def BlockToken.units (o : Options) (token : BlockToken) : Document := lineUnits (token.lines o)

section Assemble

variable {o : Options} {tokens : List BlockToken} {original : Document}

theorem lineUnits_flatMap (tokens : List BlockToken) :
    lineUnits (tokens.flatMap (BlockToken.lines o)) = tokens.flatMap (BlockToken.units o) := by
  simp only [lineUnits, List.flatMap_assoc]
  rfl

/-- Blocks lowered at the end of a document add their units. -/
theorem replay_lowerAll (h : original.length = o.initialOffset) (tokens : List BlockToken) :
    replay original (lowerAll o ⟨o.initialOffset⟩ tokens).2 =
      original ++ tokens.flatMap (BlockToken.units o) := by
  rw [lowerAll_eq_lowerLines, ← h, replay_lowerLines, lineUnits_flatMap]

theorem replay_assemble (h : original.length = o.initialOffset) :
    replay original (assemble o tokens).edits =
      original ++ tokens.flatMap (BlockToken.units o) := by
  rw [assemble_eq]
  exact replay_lowerAll h tokens

theorem mem_assemble {e : Edit} (he : e ∈ (assemble o tokens).edits) :
    (∃ text, e = .insertText text) ∨ ∃ (m : Mark) (r : TextRange), e = m.edit r := by
  rw [assemble_eq, lowerAll_eq_lowerLines] at he
  exact mem_lowerLines he

/-- The document grows by what is inserted, also part of the way. -/
theorem length_replay_take (h : original.length = o.initialOffset) (k : Nat) :
    (replay original ((assemble o tokens).edits.take k)).length =
      o.initialOffset + insertedLength ((assemble o tokens).edits.take k) := by
  rw [length_replay (fun e he => mem_assemble (List.mem_of_mem_take he)), h]

/-- Each edit belongs to a block. -/
theorem exists_block {k : Nat} (hk : k < (assemble o tokens).edits.length) :
    ∃ (i : Nat) (b : BlockRecord), (assemble o tokens).blocks[i]? = some b ∧ b.first ≤ k ∧ k < b.stop := by
  obtain ⟨i, span, hi, h1, h2⟩ := wellFormed_assemble.edits_tiled.exists_span (Nat.zero_le k) hk
  rw [List.getElem?_map] at hi
  obtain ⟨b, hb, rfl⟩ := Option.map_eq_some_iff.1 hi
  exact ⟨i, b, hb, h1, h2⟩

/-- The document that a block finds: all blocks before it are there, and nothing of it. -/
theorem replay_before_block (h : original.length = o.initialOffset) {i : Nat} {b : BlockRecord}
    (hb : (assemble o tokens).blocks[i]? = some b) :
    replay original ((assemble o tokens).edits.take b.first) =
        original ++ (tokens.take i).flatMap (BlockToken.units o) ∧
      (replay original ((assemble o tokens).edits.take b.first)).length = b.offsets.start := by
  obtain ⟨token, es, post, -, hedits, -, hfirst, -, hstart, -⟩ := assemble_block hb
  have htake : (assemble o tokens).edits.take b.first =
      (lowerAll o ⟨o.initialOffset⟩ (tokens.take i)).2 := by
    rw [hedits, hfirst, List.take_left' rfl]
  refine ⟨?_, ?_⟩
  · rw [htake]
    exact replay_lowerAll h (tokens.take i)
  · rw [length_replay_take h, htake, hstart]

end Assemble

/-- **Replaying a compilation renders its blocks.** The edits of compiled blocks, applied to a
document of as many units as the initial offset says, leave that document followed by the units of
the blocks, and it ends at the final offset. Each range that is marked on the way lies in units that
exist by then, and that the edits of its own block have inserted: the block starts when the document
holds the blocks before it and nothing more. -/
theorem replay_compile (o : Options) (tokens : List BlockToken) (original : Document)
    (h : original.length = o.initialOffset) :
    ∃ c, compile o tokens = .ok c ∧
      replay original c.edits = original ++ tokens.flatMap (BlockToken.units o) ∧
      (replay original c.edits).length = c.finalOffset ∧
      ∀ (k : Nat) (e : Edit) (r : TextRange), c.edits[k]? = some e → e.range? = some r →
        ∃ (i : Nat) (b : BlockRecord), c.blocks[i]? = some b ∧ b.first ≤ k ∧ k < b.stop ∧
          replay original (c.edits.take b.first) =
            original ++ (tokens.take i).flatMap (BlockToken.units o) ∧
          (replay original (c.edits.take b.first)).length ≤ r.start ∧
          r.stop ≤ (replay original (c.edits.take k)).length := by
  refine ⟨assemble o tokens, compile_eq, replay_assemble h, ?_, fun k e r hk hr => ?_⟩
  · have hinit : (assemble o tokens).initialOffset = o.initialOffset :=
      wellFormed_assemble.initialOffset
    rw [finalOffset_assemble, hinit, ← List.take_length (l := (assemble o tokens).edits)]
    exact length_replay_take h _
  · obtain ⟨hlt, -⟩ := List.getElem?_eq_some_iff.1 hk
    obtain ⟨i, b, hb, h1, h2⟩ := exists_block hlt
    obtain ⟨hbefore, hlength⟩ := replay_before_block h hb
    obtain ⟨-, h3, -, h4⟩ := range_assemble (List.mem_of_getElem? hb) h1 h2 hk hr
    refine ⟨i, b, hb, h1, h2, hbefore, ?_, ?_⟩
    · rw [hlength]
      exact h3
    · rw [length_replay_take h]
      exact h4

/-- A document of one unit, behind which a paragraph and a list go: the strong part of the paragraph
is a surrogate pair, and both of its units are bold. -/
theorem replay_compile_strong_and_bullet :
    [(⟨0x0A, []⟩ : DocumentUnit)].length = (1 : Nat) ∧
    ∃ c, compile {} [.paragraph "" (some [.text "a ", .strong "😄"]), .list ["b"] false] = .ok c ∧
      replay [⟨0x0A, []⟩] c.edits =
        [⟨0x0A, []⟩,
          ⟨0x61, []⟩, ⟨0x20, []⟩, ⟨0xD83D, [.text .bold]⟩, ⟨0xDE04, [.text .bold]⟩, ⟨0x0A, []⟩,
          ⟨0x62, [.bullet "BULLET_DISC_CIRCLE_SQUARE"]⟩,
          ⟨0x0A, [.bullet "BULLET_DISC_CIRCLE_SQUARE"]⟩] ∧
      (replay [⟨0x0A, []⟩] c.edits).length = c.finalOffset := by
  obtain ⟨c, hc, hunits, hlength, -⟩ := replay_compile {}
    [.paragraph "" (some [.text "a ", .strong "😄"]), .list ["b"] false] [⟨0x0A, []⟩] rfl
  refine ⟨rfl, c, hc, ?_, hlength⟩
  rw [hunits]
  decide

end MarkdownEdits
