import MarkdownEdits.Proofs.Forest

/-!
# Groups of events

At its outermost level an event stream is a sequence of groups: an event without an inside, or an
element with balanced events inside. Each group becomes one token, which depends on the source and
the group alone, and between two groups goes a blank token where the text between them has two line
feeds.
-/

namespace MarkdownEdits

/-! ### Gaps -/

namespace Text

/-- The gap between an element that ends at `lastEnd` and one that starts at `start`. It begins
where the content of the first one ends, before its last line breaks. -/
def gap (source : String) (lastEnd start : Nat) : List Char :=
  (before source start).drop (dropEndWhile isLineBreak (before source lastEnd)).length

/-- Whether the gap has two line feeds. -/
def hasTwoLineFeeds (source : String) (lastEnd start : Nat) : Bool :=
  2 ≤ (gap source lastEnd start).count '\n'

end Text

/-- The gap holds the last line breaks before it and what stands between the two elements. -/
theorem Text.gap_eq {source : String} {pre cs post : List Char}
    (h : source.toList = pre ++ cs ++ post) :
    gap source (byteLength pre) (byteLength (pre ++ cs)) = takeEndWhile isLineBreak pre ++ cs := by
  have hbefore : before source (byteLength pre) = pre :=
    before_eq (show source.toList = pre ++ (cs ++ post) by rw [h, List.append_assoc])
  rw [gap, before_eq h, hbefore]
  conv => lhs; rw [← takeEndWhile_append_dropEndWhile isLineBreak pre]
  rw [List.append_assoc, List.drop_left' (by rw [takeEndWhile_append_dropEndWhile])]

theorem hasEmptyLine_eq {source : String} {lastEnd start : Nat}
    (hlast : Text.IsBoundary source lastEnd) (hstart : Text.IsBoundary source start)
    (h : lastEnd ≤ start) :
    hasEmptyLine source lastEnd start = .ok (Text.hasTwoLineFeeds source lastEnd start) := by
  obtain ⟨pre, cs, post, hsource, rfl, hlength⟩ := hlast.exists_between hstart h
  rw [← Text.byteLength_append] at hlength
  subst hlength
  have hbefore : Text.before source (Text.byteLength pre) = pre :=
    Text.before_eq (show source.toList = pre ++ (cs ++ post) by rw [hsource, List.append_assoc])
  have hsplit : source.toList = Text.dropEndWhile Text.isLineBreak pre ++
      (Text.takeEndWhile Text.isLineBreak pre ++ cs) ++ post := by
    rw [← List.append_assoc, Text.takeEndWhile_append_dropEndWhile, hsource]
  have hread := Text.slice_between hsplit
  rw [← List.append_assoc, Text.takeEndWhile_append_dropEndWhile] at hread
  rw [hasEmptyLine, Text.slice_zero hlast, hbefore]
  simp only [bind, Except.bind, pure, Except.pure, Text.trimLineBreaks, String.toList_ofList]
  rw [hread, Text.hasTwoLineFeeds, Text.gap_eq hsource]
  simp only [String.toList_ofList]

/-- The blank token that goes before what starts at `start`, where `separated` says so. Nothing
goes before the first node. -/
def separator (separated : Nat → Nat → Bool) : Option Nat → Nat → List BlockToken
  | none, _ => []
  | some lastEnd, start => if separated lastEnd start then [.blank] else []

/-- A gap starts at a boundary that is not behind `start`. -/
def Lexer.Before (source : String) (l : Lexer) (start : Nat) : Prop :=
  ∀ lastEnd ∈ l.lastEnd, Text.IsBoundary source lastEnd ∧ lastEnd ≤ start

theorem Lexer.pushGap_eq {source : String} {l : Lexer} {start : Nat} (hl : l.Before source start)
    (hstart : Text.IsBoundary source start) :
    l.pushGap source start =
      .ok { l with
        tokens := l.tokens ++ separator (Text.hasTwoLineFeeds source) l.lastEnd start } := by
  unfold Lexer.pushGap
  cases hlast : l.lastEnd with
  | none => simp [separator, ← hlast]
  | some lastEnd =>
    obtain ⟨hboundary, hle⟩ := hl lastEnd hlast
    simp only [hasEmptyLine_eq hboundary hstart hle, bind, Except.bind, pure, Except.pure, separator]
    split
    · simp [Lexer.push, ← hlast]
    · simp [← hlast]

/-! ### The token of a node -/

/-- The range whose text the token of the block holds. -/
def OpenBlock.range? : OpenBlock → Option ByteRange
  | .paragraph r _ => some r
  | .raw r => some r
  | _ => none

section Token

variable {source : String}

/-- What is inside a block does not change which text it holds. -/
theorem OpenBlock.range?_foldl_feed (b : OpenBlock) (events : List SourceEvent) :
    (events.foldl (OpenBlock.feed source) b).range? = b.range? := by
  induction events generalizing b with
  | nil => rfl
  | cons e events ih =>
    rw [List.foldl_cons, ih]
    obtain ⟨event, r⟩ := e
    cases event <;> cases b <;> rfl

theorem OpenBlock.ofTag_eq_ok {r : ByteRange} (hr : r.Within source) (tag : Tag) :
    ∃ b, OpenBlock.ofTag source tag r = .ok b ∧ ∀ r' ∈ b.range?, r'.Within source := by
  obtain ⟨r', hr', hwithin, -⟩ := Text.withIndent_eq_ok hr
  unfold OpenBlock.ofTag
  split
  · exact ⟨_, rfl, by simp [OpenBlock.range?]⟩
  · exact ⟨_, rfl, by simpa [OpenBlock.range?] using hr⟩
  · exact ⟨_, rfl, by simp [OpenBlock.range?]⟩
  · exact ⟨_, rfl, by simp [OpenBlock.range?]⟩
  · rw [hr']
    exact ⟨_, rfl, by simpa [OpenBlock.range?] using hwithin⟩

theorem OpenBlock.token_eq_ok {b : OpenBlock} (h : ∀ r ∈ b.range?, r.Within source) :
    ∃ token, b.token source = .ok token ∧ token ≠ .blank := by
  cases b with
  | heading depth inline => exact ⟨_, rfl, nofun⟩
  | list items => exact ⟨_, rfl, nofun⟩
  | table cells => exact ⟨_, rfl, nofun⟩
  | paragraph r inline =>
    have hslice := Text.slice_eq_textOf (h r rfl)
    simp only [OpenBlock.token, hslice, bind, Except.bind, pure, Except.pure]
    exact ⟨_, rfl, nofun⟩
  | raw r =>
    have hslice := Text.slice_eq_textOf (h r rfl)
    simp only [OpenBlock.token, hslice, bind, Except.bind, pure, Except.pure]
    exact ⟨_, rfl, nofun⟩

theorem Lexer.standAlone_eq {r : ByteRange} {l : Lexer} {token : BlockToken}
    (hl : l.Before source r.start) (hr : r.Within source)
    (htoken : (Text.withIndent source r).map .raw >>= OpenBlock.token source = .ok token) :
    l.standAlone source r =
      .ok { l with
        tokens := l.tokens ++
          (separator (Text.hasTwoLineFeeds source) l.lastEnd r.start ++ [token])
        lastEnd := some r.stop } := by
  obtain ⟨r', hr', hwithin, hstop⟩ := Text.withIndent_eq_ok hr
  have hslice := Text.slice_eq_textOf hwithin
  simp only [hr', Except.map, bind, Except.bind, OpenBlock.token, hslice, pure, Except.pure,
    Except.ok.injEq] at htoken
  subst htoken
  simp only [Lexer.standAlone, Lexer.pushGap_eq hl hr.start, hr', hslice, bind, Except.bind, pure,
    Except.pure, Lexer.push, hstop, List.append_assoc]

theorem Lexer.openBlock_eq {r : ByteRange} {l : Lexer} {tag : Tag} {b : OpenBlock}
    (hl : l.Before source r.start) (hr : r.Within source)
    (hb : OpenBlock.ofTag source tag r = .ok b) :
    l.openBlock source tag r =
      .ok { l with
        tokens := l.tokens ++ separator (Text.hasTwoLineFeeds source) l.lastEnd r.start
        block := some b
        lastEnd := some r.stop } := by
  simp only [Lexer.openBlock, Lexer.pushGap_eq hl hr.start, hb, bind, Except.bind, pure, Except.pure]

end Token

/-! ### Groups -/

/-- What stands at the outermost level of an event stream: an event without an inside, or an element
that starts, has balanced events inside, and ends. -/
inductive Group
  | leaf (leaf : Leaf) (range : ByteRange)
  | element (tag : Tag) (range : ByteRange) (inside : List SourceEvent) (kind : TagKind)
      (stopRange : ByteRange) (balanced : isBalanced 0 inside = true)

namespace Group

/-- The range of the event that the group starts with. -/
def range : Group → ByteRange
  | .leaf _ r => r
  | .element _ r _ _ _ _ => r

def events : Group → List SourceEvent
  | .leaf l r => [⟨.leaf l, r⟩]
  | .element tag r inside kind stopRange _ =>
    ⟨.start tag, r⟩ :: (inside ++ [⟨.stop kind, stopRange⟩])

/-- The block that a group makes. -/
def block (source : String) : Group → Except BadSlice OpenBlock
  | .leaf _ r => (Text.withIndent source r).map .raw
  | .element tag r inside _ _ _ =>
    (OpenBlock.ofTag source tag r).map fun b => inside.foldl (OpenBlock.feed source) b

/-- The token of a group. -/
def token (source : String) (g : Group) : Except BadSlice BlockToken :=
  g.block source >>= OpenBlock.token source

/-- The ranges follow each other. -/
def InOrder (groups : List Group) : Prop :=
  groups.Pairwise fun g g' => g.range.stop ≤ g'.range.start

instance (groups : List Group) : Decidable (InOrder groups) := by
  unfold InOrder
  infer_instance

section Token

variable {source : String} {g : Group}

theorem within_range (h : Readable source g.events) : g.range.Within source := by
  cases g with
  | leaf l r => exact (readable_cons.1 h).1
  | element tag r inside kind stopRange hinside => exact (readable_cons.1 h).1

theorem token_eq_ok (h : Readable source g.events) :
    ∃ token, g.token source = .ok token ∧ token ≠ .blank := by
  have hr := within_range h
  cases g with
  | leaf l r =>
    obtain ⟨r', hr', hwithin, -⟩ := Text.withIndent_eq_ok hr
    rw [token, block, show Text.withIndent source r = _ from hr']
    exact OpenBlock.token_eq_ok (b := .raw r') (by simpa [OpenBlock.range?] using hwithin)
  | element tag r inside kind stopRange hinside =>
    obtain ⟨b, hb, hwithin⟩ := OpenBlock.ofTag_eq_ok hr tag
    rw [token, block, show OpenBlock.ofTag source tag r = _ from hb]
    apply OpenBlock.token_eq_ok
    rw [OpenBlock.range?_foldl_feed]
    exact hwithin

/-- **A group adds its token**, and ahead of it a blank token where two line feeds separate it from
the group before. Nothing else of it is left. -/
theorem foldlM_events {l : Lexer} {token : BlockToken} (hdepth : l.depth = 0)
    (hblock : l.block = none) (hl : l.Before source g.range.start)
    (hread : Readable source g.events) (htoken : g.token source = .ok token) :
    g.events.foldlM (Lexer.step source) l =
      .ok { tokens := l.tokens ++
              (separator (Text.hasTwoLineFeeds source) l.lastEnd g.range.start ++ [token])
            lastEnd := some g.range.stop } := by
  have hr := within_range hread
  cases g with
  | leaf leaf r =>
    have hstep : l.step source ⟨.leaf leaf, r⟩ = _ :=
      (if_pos hdepth).trans (Lexer.standAlone_eq hl hr htoken)
    rw [events, foldlM_cons_ok hstep, List.foldlM_nil, hblock, hdepth]
    rfl
  | element tag r inside kind stopRange hinside =>
    rw [range] at hr hl ⊢
    obtain ⟨b, hb, -⟩ := OpenBlock.ofTag_eq_ok hr tag
    rw [Group.token, block, hb] at htoken
    have hstart : l.step source ⟨.start tag, r⟩ = .ok
        { tokens := l.tokens ++ separator (Text.hasTwoLineFeeds source) l.lastEnd r.start
          block := some b
          depth := 1
          lastEnd := some r.stop } := by
      simp only [Lexer.step, Lexer.startElement, hdepth, ↓reduceIte, Lexer.openBlock_eq hl hr hb,
        bind, Except.bind, pure, Except.pure]
    have hread' : Readable source inside := (readable_append.1 (readable_cons.1 hread).2).1
    rw [events, foldlM_cons_ok hstart, foldlM_append_ok (foldlM_inside hinside rfl hread')]
    have hclose : (inside.foldl (OpenBlock.feed source) b).token source = .ok token := htoken
    simp only [List.foldlM_cons, List.foldlM_nil, Lexer.step, Lexer.feedAll, Lexer.mapBlock,
      Option.map_some, Lexer.closeBlock, hclose, if_pos, bind, Except.bind, pure, Except.pure,
      Lexer.push, List.append_assoc]

/-- A group alone is lexed to its token. -/
theorem lex_events {token : BlockToken} (hread : Readable source g.events)
    (htoken : g.token source = .ok token) : lex ⟨source, g.events⟩ = .ok [token] := by
  have hfold := foldlM_events (l := {}) rfl rfl nofun hread htoken
  simp only [lex, hfold, Lexer.closeBlock, bind, Except.bind, pure, Except.pure, separator,
    List.nil_append]

end Token

/-! ### The tokens of groups -/

/-- Groups with their tokens, and the blank tokens between them. -/
def layout (separated : Nat → Nat → Bool) : Option Nat → List (Group × BlockToken) → List BlockToken
  | _, [] => []
  | last, (g, token) :: rest =>
    separator separated last g.range.start ++ token :: layout separated (some g.range.stop) rest

section Layout

variable {source : String}

theorem foldlM_layout {groups : List Group} (horder : InOrder groups)
    (hread : ∀ g ∈ groups, Readable source g.events) {l : Lexer} (hdepth : l.depth = 0)
    (hblock : l.block = none) (hl : ∀ g ∈ groups, l.Before source g.range.start) :
    ∃ placed : List (Group × BlockToken), placed.map Prod.fst = groups ∧
      (∀ p ∈ placed, lex ⟨source, p.1.events⟩ = .ok [p.2] ∧ p.2 ≠ .blank) ∧
      ∃ last, (groups.flatMap events).foldlM (Lexer.step source) l = .ok
        { tokens := l.tokens ++ layout (Text.hasTwoLineFeeds source) l.lastEnd placed
          lastEnd := last } := by
  induction groups generalizing l with
  | nil =>
    refine ⟨[], rfl, List.forall_mem_nil _, l.lastEnd, ?_⟩
    rw [List.flatMap_nil, layout, List.append_nil, List.foldlM_nil, ← hdepth, ← hblock]
    rfl
  | cons g groups ih =>
    obtain ⟨hfirst, hrest⟩ := List.pairwise_cons.1 horder
    obtain ⟨hg, hgroups⟩ := List.forall_mem_cons.1 hread
    obtain ⟨token, htoken, hne⟩ := token_eq_ok hg
    have hstep := foldlM_events hdepth hblock (hl g List.mem_cons_self) hg htoken
    rw [List.flatMap_cons, foldlM_append_ok hstep]
    have hnext : ∀ g' ∈ groups, Lexer.Before source
        { tokens := l.tokens ++
            (separator (Text.hasTwoLineFeeds source) l.lastEnd g.range.start ++ [token])
          lastEnd := some g.range.stop } g'.range.start := by
      rintro g' hg' lastEnd ⟨⟩
      exact ⟨(within_range hg).stop, hfirst g' hg'⟩
    obtain ⟨placed, hplaced, htokens, last, hfold⟩ := ih hrest hgroups rfl rfl hnext
    refine ⟨(g, token) :: placed, ?_, ?_, last, ?_⟩
    · rw [List.map_cons, hplaced]
    · exact List.forall_mem_cons.2 ⟨⟨lex_events hg htoken, hne⟩, htokens⟩
    · rw [hfold]
      simp only [layout, List.append_assoc, List.singleton_append]

/-- **The tokens of a stream** are those of its groups, each as it is lexed alone, with a blank
token between two groups whose gap has two line feeds. -/
theorem lex_flatMap_events {groups : List Group} (horder : InOrder groups)
    (hread : ∀ g ∈ groups, Readable source g.events) :
    ∃ placed : List (Group × BlockToken), placed.map Prod.fst = groups ∧
      (∀ p ∈ placed, lex ⟨source, p.1.events⟩ = .ok [p.2] ∧ p.2 ≠ .blank) ∧
      lex ⟨source, groups.flatMap events⟩ =
        .ok (layout (Text.hasTwoLineFeeds source) none placed) := by
  obtain ⟨placed, hplaced, htokens, last, hfold⟩ :=
    foldlM_layout horder hread (l := {}) rfl rfl (fun _ _ => nofun)
  refine ⟨placed, hplaced, htokens, ?_⟩
  simp only [lex, hfold, Lexer.closeBlock, bind, Except.bind, pure, Except.pure, List.nil_append]

end Layout

end Group

end MarkdownEdits
