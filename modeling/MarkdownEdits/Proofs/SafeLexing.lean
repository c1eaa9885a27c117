import MarkdownEdits.Proofs.Counters
import MarkdownEdits.Proofs.NormalForm

/-!
# Lexing without faults

Lexing takes slices of the source text: those of the events, the gaps between blocks, and slices
that are moved to the head of their line. It also counts elements that are open. Whatever the events
are, balanced or not, as long as their ranges can be read and follow each other at the outermost
level, every slice that is taken exists, and no count is taken from that is zero (`lex_safe`).
-/

namespace MarkdownEdits

/-! ### Positions that are computed -/

namespace Text

variable {source : String} {n : ℕ}

/-- What is left of the text before a boundary without its end ends at a boundary. -/
theorem within_dropEndWhile (h : IsBoundary source n) (p : Char → Bool) :
    ByteRange.Within source ⟨byteLength (dropEndWhile p (before source n)), n⟩ := by
  obtain ⟨pre, post, hsource, rfl⟩ := h
  have hpre := takeEndWhile_append_dropEndWhile p pre
  rw [before_eq hsource]
  refine ⟨⟨dropEndWhile p pre, takeEndWhile p pre ++ post, ?_, rfl⟩, ⟨pre, post, hsource, rfl⟩, ?_⟩
  · rw [← List.append_assoc, hpre, hsource]
  · have hlength := congrArg byteLength hpre
    rw [byteLength_append] at hlength
    exact Nat.le.intro hlength

/-- The line of a boundary starts as far ahead of it as what stands before it there is long. -/
theorem byteLength_dropEndWhile_add_lineHead (h : IsBoundary source n) :
    byteLength (dropEndWhile (· != '\n') (before source n)) + byteLength (lineHead source n) =
      n := by
  obtain ⟨pre, post, hsource, rfl⟩ := h
  rw [lineHead, before_eq hsource, ← byteLength_append, takeEndWhile_append_dropEndWhile]

/-- What stands before a boundary in its line can be read. -/
theorem within_lineHead (h : IsBoundary source n) :
    ByteRange.Within source ⟨n - byteLength (lineHead source n), n⟩ := by
  have hlength := byteLength_dropEndWhile_add_lineHead h
  have hstart : n - byteLength (lineHead source n) =
      byteLength (dropEndWhile (· != '\n') (before source n)) := by omega
  rw [hstart]
  exact within_dropEndWhile h _

/-- Where the content of a text ends, ahead of its last line breaks. -/
def contentEnd (text : String) : ℕ := byteLength (trimLineBreaks text).toList

/-- The gap behind a boundary can be read, from where the content before it ends. -/
theorem within_gap {start : ℕ} (h : IsBoundary source n) (hstart : IsBoundary source start)
    (hle : n ≤ start) :
    ∃ text, slice source ⟨0, n⟩ = .ok text ∧ ByteRange.Within source ⟨contentEnd text, start⟩ := by
  have hcontent := within_dropEndWhile h isLineBreak
  refine ⟨_, slice_zero h, ?_, hstart, ?_⟩
  · rw [contentEnd, trimLineBreaks, String.toList_ofList, String.toList_ofList]
    exact hcontent.start
  · rw [contentEnd, trimLineBreaks, String.toList_ofList, String.toList_ofList]
    exact hcontent.start_le_stop.trans hle

end Text

/-! ### Runs that the lexer holds -/

namespace Lexer

variable {source : String} {l l' : Lexer} {e : SourceEvent}

theorem block_pushGap {start : ℕ} (h : l.pushGap source start = .ok l') : l'.block = l.block := by
  unfold pushGap at h
  split at h
  · cases h
    rfl
  · obtain ⟨empty, -, hempty⟩ := Except.bind_eq_ok_iff.1 h
    cases hempty
    cases empty <;> rfl

theorem block_openBlock {tag : Tag} {r : ByteRange} (h : l.openBlock source tag r = .ok l') :
    ∃ b, OpenBlock.ofTag source tag r = .ok b ∧ l'.block = some b := by
  obtain ⟨l₁, -, h⟩ := Except.bind_eq_ok_iff.1 h
  obtain ⟨b, hb, h⟩ := Except.bind_eq_ok_iff.1 h
  cases h
  exact ⟨b, hb, rfl⟩

theorem block_closeBlock (h : l.closeBlock source = .ok l') : l'.block = none := by
  unfold closeBlock at h
  split at h
  · next hnone =>
    cases h
    exact hnone
  · obtain ⟨token, -, h⟩ := Except.bind_eq_ok_iff.1 h
    cases h
    rfl

theorem block_standAlone {r : ByteRange} (h : l.standAlone source r = .ok l') :
    l'.block = l.block := by
  obtain ⟨l₁, hgap, h⟩ := Except.bind_eq_ok_iff.1 h
  obtain ⟨r', -, h⟩ := Except.bind_eq_ok_iff.1 h
  obtain ⟨text, -, h⟩ := Except.bind_eq_ok_iff.1 h
  cases h
  show l₁.block = l.block
  exact block_pushGap hgap

/-- The runs of the open block have come about by calls alone. -/
def Told (l : Lexer) : Prop := ∀ b ∈ l.block, ∀ run ∈ b.runs, run.Told

theorem Told.of_block_eq (h : l.Told) (hblock : l'.block = l.block) : l'.Told := by
  intro b hb
  exact h b (hblock ▸ hb)

theorem told_of_block_eq_none (h : l.block = none) : l.Told := by
  intro b hb
  rw [h] at hb
  cases hb

theorem Told.mapBlock (h : l.Told) {f : OpenBlock → OpenBlock}
    (hf : ∀ b : OpenBlock, (∀ run ∈ b.runs, run.Told) → ∀ run ∈ (f b).runs, run.Told) :
    (l.mapBlock f).Told := by
  intro b hb
  obtain ⟨b, hblock, rfl⟩ := Option.map_eq_some_iff.1 hb
  exact hf b (h b hblock)

theorem Told.startElement (h : l.Told) {tag : Tag} {r : ByteRange}
    (hstep : l.startElement source tag r = .ok l') : l'.Told := by
  unfold Lexer.startElement at hstep
  split at hstep
  · obtain ⟨b, hb, hblock⟩ := block_openBlock hstep
    intro b' hb'
    obtain rfl : b = b' := Option.some.inj (hblock.symm.trans hb')
    exact OpenBlock.told_ofTag hb
  · obtain ⟨text, -, hmap⟩ := Except.bind_eq_ok_iff.1 hstep
    cases hmap
    exact h.mapBlock fun b hb => OpenBlock.told_start hb tag text

/-- **An event tells the runs calls alone**, or it takes the block with its runs away, or a block
with new ones comes. -/
theorem Told.step (h : l.Told) (hstep : l.step source e = .ok l') : l'.Told := by
  obtain ⟨event, r⟩ := e
  cases event with
  | start tag =>
    obtain ⟨l₁, hstart, hl₁⟩ := Except.bind_eq_ok_iff.1 hstep
    cases hl₁
    exact (h.startElement hstart).of_block_eq rfl
  | stop kind =>
    simp only [Lexer.step] at hstep
    split at hstep
    · exact told_of_block_eq_none (block_closeBlock hstep)
    · cases hstep
      exact Told.mapBlock (l := { l with depth := l.depth - 1 }) h fun b hb =>
        OpenBlock.told_stop hb kind
  | leaf leaf =>
    simp only [Lexer.step] at hstep
    split at hstep
    · exact h.of_block_eq (block_standAlone hstep)
    · obtain ⟨text, -, hmap⟩ := Except.bind_eq_ok_iff.1 hstep
      cases hmap
      exact h.mapBlock fun b hb => OpenBlock.told_leaf hb leaf text

/-! ### The state ahead of an event -/

/-- An outermost event does not start ahead of where the last one ended. -/
theorem Ready.before_first {events : List SourceEvent} (h : l.Ready source (e :: events))
    (houter : e.event.isOutermost l.depth = true) : l.Before source e.range.start :=
  h.before e (by simp [outermost, houter])

/-- What is known of the lexer ahead of the events that follow. -/
structure Fit (source : String) (l : Lexer) (events : List SourceEvent) : Prop where
  tidy : ∃ n, l.Tidy source n
  ready : l.Ready source events
  told : l.Told

/-- **An event can be read, and the lexer is fit for the next one.** -/
theorem Fit.step {events : List SourceEvent} (h : l.Fit source (e :: events)) :
    ∃ l', l.step source e = .ok l' ∧ l'.Fit source events := by
  obtain ⟨⟨n, htidy⟩, hready, htold⟩ := h
  obtain ⟨l', hstep⟩ := htidy.step (readable_cons.1 hready.readable).1 hready.before_first
  exact ⟨l', hstep.step, ⟨_, hstep.tidy⟩, hready.next hstep, htold.step hstep.step⟩

/-- **Any part of a stream can be read**, and the lexer is fit for the rest. -/
theorem Fit.foldlM {before events : List SourceEvent} (h : l.Fit source (before ++ events)) :
    ∃ l', before.foldlM (Lexer.step source) l = .ok l' ∧ l'.Fit source events := by
  induction before generalizing l with
  | nil => exact ⟨l, rfl, h⟩
  | cons e before ih =>
    obtain ⟨l₁, hstep, hfit⟩ := h.step
    obtain ⟨l', hfold, hfit'⟩ := ih hfit
    exact ⟨l', by rw [foldlM_cons_ok hstep, hfold], hfit'⟩

/-- **What an event can rely on**: whichever slices it takes, and whichever counts it takes from,
they are there. -/
structure Safe (source : String) (l : Lexer) (e : SourceEvent) : Prop where
  /-- The event's own slice. -/
  own : e.range.Within source
  /-- The gap ahead of an outermost event. It starts where the content of the block before ends. -/
  gap : e.event.isOutermost l.depth = true → ∀ lastEnd ∈ l.lastEnd,
    ∃ text, Text.slice source ⟨0, lastEnd⟩ = .ok text ∧
      ByteRange.Within source ⟨Text.contentEnd text, e.range.start⟩
  /-- What stands before the event in its line. -/
  lineHead : ∃ text, Text.slice source ⟨0, e.range.start⟩ = .ok text ∧
    let head := Text.takeEndWhile (· != '\n') text.toList
    Text.byteLength head ≤ e.range.start ∧
      ByteRange.Within source ⟨e.range.start - Text.byteLength head, e.range.start⟩
  /-- The event's slice from the head of its line on. -/
  indented : ∃ r, Text.withIndent source e.range = .ok r ∧ r.Within source
  /-- The slice that the open block ends with. -/
  held : ∀ b ∈ l.block, ∀ r ∈ b.range?, r.Within source
  /-- The runs of the open block have come about by calls, so that their counts are sound. -/
  runs : ∀ b ∈ l.block, ∀ run ∈ b.runs, run.Told ∧ run.Sound
  /-- The end of an element takes from no count that is zero. -/
  ends : ∀ b ∈ l.block, ∀ kind, b.stop? kind = some (b.stop kind)
  step : ∃ l', l.step source e = .ok l'

theorem Fit.safe {events : List SourceEvent} (h : l.Fit source (e :: events)) :
    l.Safe source e := by
  obtain ⟨l', hstep, -⟩ := h.step
  obtain ⟨⟨n, htidy⟩, hready, htold⟩ := h
  have hown : e.range.Within source := (readable_cons.1 hready.readable).1
  have hsound : ∀ b ∈ l.block, ∀ run ∈ b.runs, run.Sound :=
    fun b hb run hrun => (htold b hb run hrun).sound
  obtain ⟨r, hr, hwithin, -⟩ := Text.withIndent_eq_ok hown
  exact {
    own := hown
    gap := by
      intro houter lastEnd hlast
      obtain ⟨hboundary, hle⟩ := hready.before_first houter lastEnd hlast
      exact Text.within_gap hboundary hown.start hle
    lineHead := by
      refine ⟨_, Text.slice_zero hown.start, ?_⟩
      rw [String.toList_ofList]
      have hlength := Text.byteLength_dropEndWhile_add_lineHead hown.start
      exact ⟨(Nat.le_add_left _ _).trans_eq hlength, Text.within_lineHead hown.start⟩
    indented := ⟨r, hr, hwithin⟩
    held := fun b hb => (htidy.block b hb).2
    runs := fun b hb run hrun => ⟨htold b hb run hrun, hsound b hb run hrun⟩
    ends := fun b hb => OpenBlock.stop?_eq_some (hsound b hb)
    step := ⟨l', hstep⟩ }

end Lexer

/-! ### Any stream -/

/-- **No event of a stream, and no call of a run, can go wrong.** -/
structure LexesSafely (m : Markdown) : Prop where
  /-- Whatever a run is told, its counts are sound, and none is taken from that is zero. -/
  counts : ∀ calls, (InlineBuilder.ofCalls calls).Sound ∧
    calls.foldlM InlineBuilder.call? {} = some (InlineBuilder.ofCalls calls)
  /-- The events ahead of each event can be read, and it is safe behind them. -/
  events : ∀ before e behind, m.events = before ++ e :: behind →
    ∃ l, before.foldlM (Lexer.step m.text) {} = .ok l ∧ l.Safe m.text e
  /-- What is open behind the last event ends with a slice that exists, too. -/
  ends : ∃ l tokens, m.events.foldlM (Lexer.step m.text) {} = .ok l ∧
    (∀ b ∈ l.block, ∀ r ∈ b.range?, r.Within m.text) ∧ lex m = .ok tokens

/-- **The lexer is safe on every event stream**, balanced or not, whose ranges can be read and
follow each other at the outermost level. -/
theorem lex_safe {m : Markdown} (hread : Readable m.text m.events) (horder : m.InOrder) :
    LexesSafely m := by
  have hfit : Lexer.Fit m.text {} m.events :=
    ⟨⟨0, Lexer.tidy_empty⟩, ⟨hread, fun _ _ => nofun, horder⟩, Lexer.told_of_block_eq_none rfl⟩
  refine ⟨fun calls => ⟨InlineBuilder.sound_ofCalls calls,
    InlineBuilder.sound_empty.foldlM_call? calls⟩, ?_, ?_⟩
  · intro before e behind hsplit
    obtain ⟨l, hfold, hrest⟩ := Lexer.Fit.foldlM (hsplit ▸ hfit)
    exact ⟨l, hfold, hrest.safe⟩
  · have hall : Lexer.Fit m.text {} (m.events ++ []) := (List.append_nil m.events).symm ▸ hfit
    obtain ⟨l, hfold, ⟨n, htidy⟩, -, -⟩ := hall.foldlM
    obtain ⟨l', hclose, -⟩ := htidy.closeBlock l.depth
    refine ⟨l, l'.tokens, hfold, fun b hb => (htidy.block b hb).2, ?_⟩
    simp only [lex, hfold, bind, Except.bind, pure, Except.pure]
    rw [hclose]

/-- A list with an item that starts inside an emphasis, and with ends that nothing starts. -/
def strayEnds : Markdown where
  text := "- *a\n  - b\n---\n"
  events := [
    ⟨.stop .emphasis, ⟨0, 0⟩⟩,
    ⟨.start (.list none), ⟨0, 11⟩⟩, ⟨.start (.plain .item), ⟨0, 11⟩⟩,
    ⟨.start (.plain .emphasis), ⟨2, 4⟩⟩, ⟨.leaf (.text "a"), ⟨3, 4⟩⟩,
    ⟨.start (.plain .item), ⟨7, 11⟩⟩, ⟨.leaf (.text "b"), ⟨9, 10⟩⟩,
    ⟨.stop .emphasis, ⟨2, 4⟩⟩, ⟨.stop .item, ⟨7, 11⟩⟩, ⟨.stop .emphasis, ⟨2, 4⟩⟩,
    ⟨.stop .list, ⟨0, 11⟩⟩,
    ⟨.leaf .other, ⟨11, 15⟩⟩, ⟨.stop .item, ⟨15, 15⟩⟩]

theorem lex_safe_of_strayEnds :
    strayEnds.InOrder ∧ lex strayEnds = .ok [.list ["a", "b"] false, .raw "---\n"] ∧
      LexesSafely strayEnds :=
  ⟨by decide, by decide, lex_safe (by decide) (by decide)⟩

end MarkdownEdits
