import MarkdownEdits.Proofs.NormalTokens

/-!
# Lexed tokens in normal form

The tokens of any event stream, balanced or not, are in normal form: blank tokens stand between two
others only, every other token is in the normal form of its kind, and there is one for each event at
the outermost level that starts an element or stands alone (`lex_normalForm`). Ends without a start
are passed over, and a block whose end is missing ends with the stream.
-/

namespace MarkdownEdits

/-! ### The outermost level -/

/-- How many elements are open behind an event. An end without a start ends nothing. -/
def Event.depthAfter (depth : Nat) : Event → Nat
  | .start _ => depth + 1
  | .stop _ => depth - 1
  | .leaf _ => depth

/-- Whether an event starts an element at the outermost level or stands alone there. -/
def Event.isOutermost (depth : Nat) : Event → Bool
  | .start _ | .leaf _ => depth == 0
  | .stop _ => false

/-- The events that start an element at the outermost level or stand alone there, where `depth`
elements are open ahead of the stream. -/
def outermost : Nat → List SourceEvent → List SourceEvent
  | _, [] => []
  | depth, e :: es =>
    let rest := outermost (e.event.depthAfter depth) es
    if e.event.isOutermost depth then e :: rest else rest

theorem Event.isOutermost_of_ne_zero {depth : Nat} (h : depth ≠ 0) (event : Event) :
    event.isOutermost depth = false := by
  cases event <;> simp [isOutermost, h]

theorem length_outermost_cons (depth : Nat) (e : SourceEvent) (es : List SourceEvent) :
    (outermost depth (e :: es)).length =
      (e.event.isOutermost depth).toNat + (outermost (e.event.depthAfter depth) es).length := by
  cases h : e.event.isOutermost depth with
  | true => simp [outermost, h, Nat.add_comm]
  | false => simp [outermost, h]

/-- The ranges at the outermost level follow each other. -/
def Markdown.InOrder (m : Markdown) : Prop :=
  (outermost 0 m.events).Pairwise fun e e' => e.range.stop ≤ e'.range.start

instance (m : Markdown) : Decidable m.InOrder := by
  unfold Markdown.InOrder
  infer_instance

/-! ### Where blank tokens stand -/

def BlockToken.isBlank : BlockToken → Bool
  | .blank => true
  | _ => false

theorem BlockToken.isBlank_iff {t : BlockToken} : t.isBlank = true ↔ t = .blank := by
  cases t <;> simp [isBlank]

theorem BlockToken.isBlank_eq_false {t : BlockToken} (h : t ≠ .blank) : t.isBlank = false :=
  Bool.eq_false_iff.2 fun hblank => h (isBlank_iff.1 hblank)

/-- Blanks, marked by `true`, stand between two others only. -/
structure WellSpaced (marks : List Bool) : Prop where
  first : marks.head? ≠ some true
  last : marks.getLast? ≠ some true
  apart : marks.IsChain fun a b => ¬ (a = true ∧ b = true)

theorem wellSpaced_nil : WellSpaced [] := ⟨nofun, nofun, List.isChain_nil⟩

/-- Behind something a blank may go ahead of what follows. -/
theorem WellSpaced.append_block {marks gap : List Bool} (h : WellSpaced marks)
    (hgap : gap = [] ∨ marks ≠ [] ∧ gap = [true]) : WellSpaced (marks ++ (gap ++ [false])) := by
  have hinner : (gap ++ [false]).IsChain fun a b => ¬ (a = true ∧ b = true) := by
    obtain rfl | ⟨-, rfl⟩ := hgap
    · exact List.isChain_singleton false
    · exact List.isChain_pair.2 (by decide)
  refine ⟨?_, ?_, List.isChain_append.2 ⟨h.apart, hinner, ?_⟩⟩
  · rw [List.head?_append]
    cases hhead : marks.head? with
    | some mark =>
      rw [Option.some_or, ← hhead]
      exact h.first
    | none =>
      obtain rfl | ⟨hne, -⟩ := hgap
      · nofun
      · exact absurd (List.head?_eq_none_iff.1 hhead) hne
  · rw [← List.append_assoc, List.getLast?_concat]
    nofun
  · rintro a ha b - ⟨rfl, -⟩
    exact h.last ha

/-- Which of the tokens are blank, the one that the open block will become included. That one is no
blank, so the end of a block leaves the marks as they are. -/
def Lexer.marks (l : Lexer) : List Bool :=
  l.tokens.map BlockToken.isBlank ++ l.block.toList.map fun _ => false

/-! ### One event -/

/-- What holds of the lexer behind any events of which `count` were outermost. -/
structure Lexer.Tidy (source : String) (l : Lexer) (count : Nat) : Prop where
  normal : ∀ t ∈ l.tokens, t.IsNormal
  block : ∀ b ∈ l.block, b.IsNormal ∧ ∀ r ∈ b.range?, r.Within source
  closed : l.depth = 0 → l.block = none
  /-- Gaps are looked for behind the first block only. -/
  begun : l.lastEnd ≠ none → l.marks ≠ []
  spaced : WellSpaced l.marks
  count : l.marks.count false = count

namespace Lexer

variable {source : String} {l : Lexer} {n : Nat} {r : ByteRange}

theorem tidy_empty : Tidy source {} 0 where
  normal := List.forall_mem_nil _
  block := nofun
  closed _ := rfl
  begun h := absurd rfl h
  spaced := wellSpaced_nil
  count := rfl

/-- A gap is nothing or one blank token. -/
theorem separator_eq (separated : Nat → Nat → Bool) (lastEnd : Option Nat) (start : Nat) :
    separator separated lastEnd start = [] ∨
      lastEnd ≠ none ∧ separator separated lastEnd start = [.blank] := by
  cases lastEnd with
  | none => exact .inl rfl
  | some lastEnd =>
    by_cases h : separated lastEnd start = true
    · exact .inr ⟨nofun, if_pos h⟩
    · exact .inl (if_neg h)

namespace Tidy

/-- What changes neither the marks nor the last end stays tidy. -/
theorem of_marks_eq (h : l.Tidy source n) {l' : Lexer} (hmarks : l'.marks = l.marks)
    (hlast : l'.lastEnd = l.lastEnd) (hnormal : ∀ t ∈ l'.tokens, t.IsNormal)
    (hblock : ∀ b ∈ l'.block, b.IsNormal ∧ ∀ r ∈ b.range?, r.Within source)
    (hclosed : l'.depth = 0 → l'.block = none) : l'.Tidy source n where
  normal := hnormal
  block := hblock
  closed := hclosed
  begun := by rw [hmarks, hlast]; exact h.begun
  spaced := hmarks ▸ h.spaced
  count := hmarks ▸ h.count

/-- A gap and one block more, open or not, go behind what is there. -/
theorem append_block (h : l.Tidy source n) (start : Nat) {l' : Lexer}
    (hmarks : l'.marks = l.marks ++
      ((separator (Text.hasTwoLineFeeds source) l.lastEnd start).map BlockToken.isBlank ++ [false]))
    (hnormal : ∀ t ∈ l'.tokens, t.IsNormal)
    (hblock : ∀ b ∈ l'.block, b.IsNormal ∧ ∀ r ∈ b.range?, r.Within source)
    (hclosed : l'.depth = 0 → l'.block = none) : l'.Tidy source (n + 1) where
  normal := hnormal
  block := hblock
  closed := hclosed
  begun _ := by simp [hmarks]
  spaced := by
    rw [hmarks]
    apply h.spaced.append_block
    obtain hgap | ⟨hlast, hgap⟩ := separator_eq (Text.hasTwoLineFeeds source) l.lastEnd start
    · exact .inl (by rw [hgap]; rfl)
    · exact .inr ⟨h.begun hlast, by rw [hgap]; rfl⟩
  count := by
    rw [hmarks, List.count_append, h.count]
    obtain hgap | ⟨-, hgap⟩ := separator_eq (Text.hasTwoLineFeeds source) l.lastEnd start
    · rw [hgap]; rfl
    · rw [hgap]; rfl

theorem normal_append (h : l.Tidy source n) (start : Nat) :
    ∀ t ∈ l.tokens ++ separator (Text.hasTwoLineFeeds source) l.lastEnd start, t.IsNormal := by
  rw [List.forall_mem_append]
  refine ⟨h.normal, ?_⟩
  obtain hgap | ⟨-, hgap⟩ := separator_eq (Text.hasTwoLineFeeds source) l.lastEnd start
  · rw [hgap]
    exact List.forall_mem_nil _
  · rw [hgap, List.forall_mem_singleton]
    trivial

/-- At the end of a block its token takes its place. -/
theorem closeBlock (h : l.Tidy source n) (depth : Nat) :
    ∃ l', Lexer.closeBlock source { l with depth := depth } = .ok l' ∧ l'.lastEnd = l.lastEnd ∧
      l'.depth = depth ∧ l'.block = none ∧ l'.Tidy source n := by
  cases hblock : l.block with
  | none =>
    refine ⟨{ l with depth := depth }, ?_, rfl, rfl, hblock, ?_⟩
    · simp only [Lexer.closeBlock, hblock]
    · exact h.of_marks_eq rfl rfl h.normal h.block fun _ => hblock
  | some b =>
    obtain ⟨hb, hwithin⟩ := h.block b hblock
    obtain ⟨token, htoken, hne⟩ := OpenBlock.token_eq_ok hwithin
    refine ⟨{ l with tokens := l.tokens ++ [token], block := none, depth := depth }, ?_, rfl, rfl,
      rfl, h.of_marks_eq ?_ rfl ?_ ?_ fun _ => rfl⟩
    · simp only [Lexer.closeBlock, htoken, bind, Except.bind, pure, Except.pure, Lexer.push]
    · simp [marks, hblock, BlockToken.isBlank_eq_false hne]
    · rw [List.forall_mem_append, List.forall_mem_singleton]
      exact ⟨h.normal, hb.token htoken⟩
    · intro b' hb'
      cases hb'

end Tidy

/-- One event can be read, and what it leaves behind is tidy. -/
structure StepsTo (source : String) (l : Lexer) (n : Nat) (e : SourceEvent) (l' : Lexer) :
    Prop where
  step : l.step source e = .ok l'
  depth : l'.depth = e.event.depthAfter l.depth
  lastEnd : l'.lastEnd = if e.event.isOutermost l.depth then some e.range.stop else l.lastEnd
  tidy : l'.Tidy source (n + (e.event.isOutermost l.depth).toNat)

namespace Tidy

/-- An element starts at the outermost level. -/
theorem step_start_outermost (h : l.Tidy source n) (hd : l.depth = 0) (hr : r.Within source)
    (hbefore : l.Before source r.start) (tag : Tag) :
    ∃ l', l.StepsTo source n ⟨.start tag, r⟩ l' := by
  obtain ⟨b, hb, hwithin⟩ := OpenBlock.ofTag_eq_ok hr tag
  have houter : Event.isOutermost l.depth (.start tag) = true := beq_iff_eq.2 hd
  refine ⟨
    { tokens := l.tokens ++ separator (Text.hasTwoLineFeeds source) l.lastEnd r.start
      block := some b
      depth := l.depth + 1
      lastEnd := some r.stop }, ?_, rfl, ?_, ?_⟩
  · simp only [Lexer.step, startElement, if_pos hd, Lexer.openBlock_eq hbefore hr hb, bind,
      Except.bind, pure, Except.pure]
  · rw [houter]
    rfl
  · rw [houter]
    refine h.append_block r.start ?_ (h.normal_append r.start) ?_ fun h0 =>
      absurd h0 (Nat.succ_ne_zero _)
    · simp [marks, h.closed hd]
    · intro b' hb'
      rw [← Option.some.inj hb']
      exact ⟨OpenBlock.isNormal_ofTag hb, hwithin⟩

/-- An event without an inside stands at the outermost level. -/
theorem step_leaf_outermost (h : l.Tidy source n) (hd : l.depth = 0) (hr : r.Within source)
    (hbefore : l.Before source r.start) (leaf : Leaf) :
    ∃ l', l.StepsTo source n ⟨.leaf leaf, r⟩ l' := by
  have hread : Readable source (Group.leaf leaf r).events :=
    readable_cons.2 ⟨hr, List.forall_mem_nil _⟩
  obtain ⟨token, htoken, hne⟩ := Group.token_eq_ok hread
  have hnormal : token.IsNormal := by
    obtain ⟨b, hb, hbtoken⟩ := Except.bind_eq_ok_iff.1 htoken
    -- the block of such an event is that of an element which is passed through
    have hb' : OpenBlock.ofTag source (.plain .other) r = .ok b := hb
    exact (OpenBlock.isNormal_ofTag hb').token hbtoken
  have houter : Event.isOutermost l.depth (.leaf leaf) = true := beq_iff_eq.2 hd
  have hstep : l.step source ⟨.leaf leaf, r⟩ = _ :=
    (if_pos hd).trans (Lexer.standAlone_eq hbefore hr htoken)
  refine ⟨_, hstep, rfl, ?_, ?_⟩
  · rw [houter]
    rfl
  · rw [houter]
    refine h.append_block r.start ?_ ?_ h.block h.closed
    · simp [marks, h.closed hd, BlockToken.isBlank_eq_false hne]
    · rw [← List.append_assoc, List.forall_mem_append, List.forall_mem_singleton]
      exact ⟨h.normal_append r.start, hnormal⟩

/-- The outermost element ends, or nothing does. -/
theorem step_stop_outermost (h : l.Tidy source n) (hd : l.depth - 1 = 0) (kind : TagKind) :
    ∃ l', l.StepsTo source n ⟨.stop kind, r⟩ l' := by
  obtain ⟨l', hclose, hlast, hdepth, -, htidy⟩ := h.closeBlock (l.depth - 1)
  refine ⟨l', ?_, hdepth, hlast, htidy⟩
  simp only [Lexer.step, if_pos hd]
  exact hclose

/-- An event inside a block changes the block alone. -/
theorem step_inside (h : l.Tidy source n) {e : SourceEvent} (he : e.range.Within source)
    (hd : l.depth ≠ 0) (hafter : e.event.depthAfter l.depth ≠ 0) :
    ∃ l', l.StepsTo source n e l' := by
  obtain ⟨event, r⟩ := e
  have hinner := Event.isOutermost_of_ne_zero hd event
  refine ⟨{ l.mapBlock (·.feed source ⟨event, r⟩) with depth := event.depthAfter l.depth }, ?_, rfl,
    ?_, ?_⟩
  · cases event with
    | start tag => exact step_start_inside (Nat.pos_of_ne_zero hd) he tag
    | stop kind => exact step_stop_inside (Nat.lt_of_sub_pos (Nat.pos_of_ne_zero hafter)) kind
    | leaf leaf => exact step_leaf_inside (Nat.pos_of_ne_zero hd) he leaf
  · rw [hinner]
    rfl
  · rw [hinner]
    refine h.of_marks_eq ?_ rfl h.normal ?_ fun h0 => absurd h0 hafter
    · cases hblock : l.block <;> simp [marks, mapBlock, hblock]
    · intro b hb
      obtain ⟨b, hblock, rfl⟩ := Option.map_eq_some_iff.1 hb
      obtain ⟨hnormal, hwithin⟩ := h.block b hblock
      have hrange : (b.feed source ⟨event, r⟩).range? = b.range? :=
        OpenBlock.range?_foldl_feed b [⟨event, r⟩]
      exact ⟨hnormal.feed _, hrange ▸ hwithin⟩

/-- **One event.** -/
theorem step (h : l.Tidy source n) {e : SourceEvent} (he : e.range.Within source)
    (hbefore : e.event.isOutermost l.depth = true → l.Before source e.range.start) :
    ∃ l', l.StepsTo source n e l' := by
  obtain ⟨event, r⟩ := e
  cases event with
  | start tag =>
    by_cases hd : l.depth = 0
    · exact h.step_start_outermost hd he (hbefore (beq_iff_eq.2 hd)) tag
    · exact h.step_inside he hd (Nat.succ_ne_zero _)
  | stop kind =>
    by_cases hd : l.depth - 1 = 0
    · exact h.step_stop_outermost hd kind
    · exact h.step_inside he (fun h0 => hd (by rw [h0])) hd
  | leaf leaf =>
    by_cases hd : l.depth = 0
    · exact h.step_leaf_outermost hd he (hbefore (beq_iff_eq.2 hd)) leaf
    · exact h.step_inside he hd hd

end Tidy

/-! ### A whole stream -/

/-- The events can be read from here on: no outermost one starts ahead of where the last one ended,
or of where the one before it ends. -/
structure Ready (source : String) (l : Lexer) (events : List SourceEvent) : Prop where
  readable : Readable source events
  before : ∀ e ∈ outermost l.depth events, l.Before source e.range.start
  inOrder : (outermost l.depth events).Pairwise fun e e' => e.range.stop ≤ e'.range.start

theorem Ready.next {e : SourceEvent} {events : List SourceEvent} {l' : Lexer}
    (h : l.Ready source (e :: events)) (hstep : l.StepsTo source n e l') :
    l'.Ready source events := by
  obtain ⟨hread, hbefore, horder⟩ := h
  obtain ⟨he, hrest⟩ := readable_cons.1 hread
  have hlast := hstep.lastEnd
  cases houter : e.event.isOutermost l.depth with
  | true =>
    simp only [outermost, houter, if_true, ← hstep.depth, List.pairwise_cons] at horder
    rw [houter] at hlast
    refine ⟨hrest, fun e' he' lastEnd hlastEnd => ?_, horder.2⟩
    rw [hlast] at hlastEnd
    cases hlastEnd
    exact ⟨he.stop, horder.1 e' he'⟩
  | false =>
    simp only [outermost, houter, Bool.false_eq_true, if_false, ← hstep.depth] at hbefore horder
    rw [houter] at hlast
    refine ⟨hrest, fun e' he' lastEnd hlastEnd => ?_, horder⟩
    rw [hlast] at hlastEnd
    exact hbefore e' he' lastEnd hlastEnd

/-- **A whole stream can be read**, and what it leaves behind is tidy. -/
theorem Tidy.foldlM (h : l.Tidy source n) {events : List SourceEvent}
    (hready : l.Ready source events) :
    ∃ l', events.foldlM (Lexer.step source) l = .ok l' ∧
      l'.Tidy source (n + (outermost l.depth events).length) := by
  induction events generalizing l n with
  | nil => exact ⟨l, rfl, h⟩
  | cons e events ih =>
    have hfirst : e.event.isOutermost l.depth = true → l.Before source e.range.start := by
      intro houter
      exact hready.before e (by simp [outermost, houter])
    obtain ⟨l', hstep⟩ := h.step (readable_cons.1 hready.readable).1 hfirst
    obtain ⟨l'', hfold, htidy⟩ := ih hstep.tidy (hready.next hstep)
    refine ⟨l'', ?_, ?_⟩
    · rw [foldlM_cons_ok hstep.step, hfold]
    · rw [length_outermost_cons, ← hstep.depth, ← Nat.add_assoc]
      exact htidy

end Lexer

/-! ### The tokens of a stream -/

/-- The normal form of the tokens of a text. -/
structure NormalForm (m : Markdown) (tokens : List BlockToken) : Prop where
  first : tokens.head? ≠ some .blank
  last : tokens.getLast? ≠ some .blank
  apart : tokens.IsChain fun t u => ¬ (t = .blank ∧ u = .blank)
  normal : ∀ t ∈ tokens, t.IsNormal
  /-- No block is lost, and none is doubled. -/
  count : (tokens.filter (· ≠ .blank)).length = (outermost 0 m.events).length

theorem WellSpaced.of_map {tokens : List BlockToken}
    (h : WellSpaced (tokens.map BlockToken.isBlank)) :
    tokens.head? ≠ some .blank ∧ tokens.getLast? ≠ some .blank ∧
      tokens.IsChain fun t u => ¬ (t = .blank ∧ u = .blank) := by
  refine ⟨fun hhead => h.first ?_, fun hlast => h.last ?_, ?_⟩
  · rw [List.head?_map, hhead]
    rfl
  · rw [List.getLast?_map, hlast]
    rfl
  · have hchain := List.isChain_map _ |>.1 h.apart
    simpa only [BlockToken.isBlank_iff] using hchain

/-- **The tokens of any event stream are in normal form.** The stream need not be balanced; its
ranges can be read, and at the outermost level they follow each other. -/
theorem lex_normalForm {m : Markdown} (hread : Readable m.text m.events) (horder : m.InOrder) :
    ∃ tokens, lex m = .ok tokens ∧ NormalForm m tokens := by
  obtain ⟨l, hfold, htidy⟩ := Lexer.tidy_empty.foldlM ⟨hread, fun _ _ => nofun, horder⟩
  obtain ⟨l', hclose, -, -, hblock, htidy'⟩ := htidy.closeBlock l.depth
  have hlex : lex m = .ok l'.tokens := by
    simp only [lex, hfold, bind, Except.bind, pure, Except.pure]
    rw [hclose]
  have hmarks : l'.marks = l'.tokens.map BlockToken.isBlank := by
    rw [Lexer.marks, hblock]
    exact List.append_nil _
  obtain ⟨hfirst, hlast, hapart⟩ := WellSpaced.of_map (hmarks ▸ htidy'.spaced)
  refine ⟨l'.tokens, hlex, hfirst, hlast, hapart, htidy'.normal, ?_⟩
  have hcount := htidy'.count
  rw [hmarks, Nat.zero_add] at hcount
  rw [← hcount, List.count, List.countP_map, List.countP_eq_length_filter]
  congr 2
  funext t
  cases t <;> rfl

/-- A stray end, a heading, and a paragraph that the stream breaks off in. -/
def brokenOff : Markdown where
  text := "# a \n\n*b\n"
  events := [
    ⟨.stop .paragraph, ⟨0, 0⟩⟩,
    ⟨.start (.heading 1), ⟨0, 5⟩⟩, ⟨.leaf (.text "a "), ⟨2, 4⟩⟩, ⟨.stop .heading, ⟨0, 5⟩⟩,
    ⟨.start (.plain .paragraph), ⟨6, 9⟩⟩, ⟨.start (.plain .emphasis), ⟨6, 8⟩⟩,
    ⟨.leaf (.text "b"), ⟨7, 8⟩⟩]

theorem lex_normalForm_of_brokenOff :
    brokenOff.InOrder ∧ lex brokenOff =
        .ok [.heading "a" 1, .blank, .paragraph "*b" (some [.emphasis "b"])] ∧
      ∃ tokens, lex brokenOff = .ok tokens ∧ NormalForm brokenOff tokens :=
  ⟨by decide, by decide, lex_normalForm (by decide) (by decide)⟩

end MarkdownEdits
