import MarkdownEdits.Proofs.ListTree

/-!
# The parts of an item

The list builder gathers the text of an item in the run of the innermost open item. Each part of an
item adds its text to that run, and changes nothing else.
-/

namespace MarkdownEdits

/-- An event inside a list, with the source text of its range. -/
def ListBuilder.feed (source : String) (b : ListBuilder) (e : SourceEvent) : ListBuilder :=
  match e.event with
  | .start tag => b.start tag (Text.textOf source e.range)
  | .stop kind => b.stop kind
  | .leaf l => b.leaf l (Text.textOf source e.range)

section Feed

variable {source : String}

@[simp] theorem ListBuilder.feed_start (b : ListBuilder) (tag : Tag) (r : ByteRange) :
    b.feed source ⟨.start tag, r⟩ = b.start tag (Text.textOf source r) := rfl

@[simp] theorem ListBuilder.feed_stop (b : ListBuilder) (kind : TagKind) (r : ByteRange) :
    b.feed source ⟨.stop kind, r⟩ = b.stop kind := rfl

theorem OpenBlock.foldl_feed_list (items : ListBuilder) (events : List SourceEvent) :
    events.foldl (OpenBlock.feed source) (.list items) =
      .list (events.foldl (ListBuilder.feed source) items) := by
  refine List.foldl_hom OpenBlock.list ?_
  rintro items ⟨event, r⟩
  cases event <;> rfl

/-! ### The run of the innermost item -/

theorem ListBuilder.mapInline_mapInline (b : ListBuilder) (f g : InlineBuilder → InlineBuilder) :
    (b.mapInline f).mapInline g = b.mapInline fun i => g (f i) := by
  obtain ⟨ordered, items, openItems⟩ := b
  cases openItems <;> rfl

/-- An inline element changes the run of the innermost item alone. -/
theorem ListBuilder.start_inline {tag : Tag} (h : tag.kind.isInline = true) (b : ListBuilder)
    (text : String) : b.start tag text = b.mapInline (·.start tag text) := by
  unfold ListBuilder.start
  split
  · rfl
  · cases hkind : tag.kind <;> simp_all [TagKind.isInline]

/-- A block that is kept as its source stands apart from the text before it. -/
theorem ListBuilder.start_block {tag : Tag} (hkept : tag.isKept = true)
    (hblock : tag.kind.isInline = false) {b : ListBuilder} (hb : b.inSource = false)
    (text : String) : b.start tag text = b.mapInline (·.pushSeparator.start tag text) := by
  unfold ListBuilder.start
  rw [hb, if_neg Bool.false_ne_true]
  rw [Tag.isKept, Bool.and_eq_true] at hkept
  cases hkind : tag.kind <;> simp_all [TagKind.isInline]

theorem ListBuilder.stop_inline {kind : TagKind} (h : kind.isInline = true) (b : ListBuilder) :
    b.stop kind = b.mapInline (·.stop) := by
  unfold ListBuilder.stop
  split
  · rfl
  · cases kind <;> simp_all [TagKind.isInline]

mutual
theorem Node.feed_list_inline (n : Node) (h : n.isInline = true) (b : ListBuilder) :
    n.events.foldl (ListBuilder.feed source) b =
      b.mapInline fun i => n.events.foldl (InlineBuilder.feed source) i := by
  cases n with
  | leaf l r => rfl
  | element tag r children =>
    rw [Node.isInline, Bool.and_eq_true] at h
    rw [Node.foldl_element, ListBuilder.feed_start, ListBuilder.start_inline h.1,
      Node.feedAll_list_inline children h.2, ListBuilder.mapInline_mapInline,
      ListBuilder.feed_stop, ListBuilder.stop_inline h.1, ListBuilder.mapInline_mapInline]
    simp only [Node.foldl_element]
    rfl
theorem Node.feedAll_list_inline (nodes : List Node) (h : Node.allInline nodes = true)
    (b : ListBuilder) :
    (Node.eventsAll nodes).foldl (ListBuilder.feed source) b =
      b.mapInline fun i => (Node.eventsAll nodes).foldl (InlineBuilder.feed source) i := by
  cases nodes with
  | nil =>
    obtain ⟨ordered, items, openItems⟩ := b
    cases openItems <;> rfl
  | cons n nodes =>
    rw [Node.allInline, Bool.and_eq_true] at h
    rw [Node.foldl_eventsAll_cons, Node.feed_list_inline n h.1, Node.feedAll_list_inline nodes h.2,
      ListBuilder.mapInline_mapInline]
    simp only [Node.foldl_eventsAll_cons]
end

/-- Inside an element that is kept as its source another one opens and closes without a trace. -/
theorem ListBuilder.inSource_start {b : ListBuilder} (h : b.inSource = true) (tag : Tag)
    (text : String) : (b.start tag text).inSource = true ∧
      ∀ kind, (b.start tag text).stop kind = b := by
  obtain ⟨ordered, items, _ | ⟨⟨inline, flushed⟩, outer⟩⟩ := b
  · cases h
  · have hinline : inline.inSource = true := h
    have hstart : ListBuilder.start ⟨ordered, items, ⟨inline, flushed⟩ :: outer⟩ tag text =
        ⟨ordered, items,
          ⟨{ inline with sourceDepth := inline.sourceDepth + 1 }, flushed⟩ :: outer⟩ := by
      simp [ListBuilder.start, ListBuilder.inSource, ListBuilder.mapInline, InlineBuilder.start,
        hinline]
    have hopen : InlineBuilder.inSource
        { inline with sourceDepth := inline.sourceDepth + 1 } = true := by
      simp [InlineBuilder.inSource]
    rw [hstart]
    refine ⟨hopen, fun kind => ?_⟩
    simp [ListBuilder.stop, ListBuilder.inSource, ListBuilder.mapInline, InlineBuilder.stop, hopen]

mutual
/-- **Inside an element that is kept as its source nothing changes**, whatever is there. -/
theorem Node.feed_list_inSource (n : Node) (b : ListBuilder) (h : b.inSource = true) :
    n.events.foldl (ListBuilder.feed source) b = b := by
  cases n with
  | leaf l r =>
    obtain ⟨ordered, items, _ | ⟨⟨inline, flushed⟩, outer⟩⟩ := b
    · rfl
    · have hinline : inline.inSource = true := h
      simp [Node.foldl_leaf, ListBuilder.feed, ListBuilder.leaf, ListBuilder.mapInline,
        InlineBuilder.leaf, hinline]
  | element tag r children =>
    obtain ⟨hopen, hclose⟩ := ListBuilder.inSource_start h tag (Text.textOf source r)
    rw [Node.foldl_element, ListBuilder.feed_start, Node.feedAll_list_inSource children _ hopen,
      ListBuilder.feed_stop, hclose]
theorem Node.feedAll_list_inSource (nodes : List Node) (b : ListBuilder) (h : b.inSource = true) :
    (Node.eventsAll nodes).foldl (ListBuilder.feed source) b = b := by
  cases nodes with
  | nil => rfl
  | cons n nodes =>
    rw [Node.foldl_eventsAll_cons, Node.feed_list_inSource n b h,
      Node.feedAll_list_inSource nodes b h]
end

end Feed

/-! ### The text of the innermost item -/

/-- The tokens of an item hold its text, up to blanks ahead of it. -/
def Holds (tokens : List InlineToken) (run : String) : Prop :=
  ∃ pad, Text.IsBlankText pad ∧ run = pad ++ InlineToken.renderAll tokens

/-- An item between two of its parts. -/
def OpenItem.between (tokens : List InlineToken) (flushed : Bool) : OpenItem :=
  ⟨⟨tokens, none, 0⟩, flushed⟩

section Text

variable {tokens more : List InlineToken} {run : String}

theorem holds_nil : Holds [] "" := ⟨"", nofun, rfl⟩

theorem Holds.append (h : Holds tokens run) {text : String}
    (hmore : InlineToken.renderAll more = InlineToken.renderAll tokens ++ text) :
    Holds more (run ++ text) := by
  obtain ⟨pad, hpad, rfl⟩ := h
  exact ⟨pad, hpad, by rw [hmore, String.append_assoc]⟩

theorem Holds.trim_eq (h : Holds tokens run) :
    Text.trim (InlineToken.renderAll tokens) = Text.trim run := by
  obtain ⟨pad, hpad, rfl⟩ := h
  rw [Text.trim_blank_append hpad]

/-- The text ahead of which a separator is left out is empty. -/
theorem Holds.separator (h : Holds tokens run) :
    ∃ more, (⟨tokens, none, 0⟩ : InlineBuilder).pushSeparator = ⟨more, none, 0⟩ ∧
      Holds more (run ++ " ") := by
  cases tokens with
  | nil =>
    obtain ⟨pad, hpad, rfl⟩ := h
    refine ⟨[], rfl, pad ++ " ", Text.isBlankText_append.2 ⟨hpad, Text.isBlankText_space⟩, ?_⟩
    rw [InlineToken.renderAll_nil, String.append_empty, String.append_empty]
  | cons token tokens =>
    exact ⟨_, rfl, h.append (InlineToken.renderAll_appendText " " _)⟩

end Text

section Parts

variable (source : String) {ordered : Bool} {out : List String} {tokens : List InlineToken}
  {flushed : Bool} {outer : List OpenItem} {run : String}

theorem feed_inline_part (h : Holds tokens run) {n : Node} (hn : n.isInline = true) :
    ∃ more, n.events.foldl (ListBuilder.feed source)
        ⟨ordered, out, .between tokens flushed :: outer⟩ =
          ⟨ordered, out, .between more flushed :: outer⟩ ∧
      Holds more (run ++ n.text source) := by
  refine ⟨n.appendTo source tokens, ?_, h.append (n.renderAll_appendTo source tokens)⟩
  rw [Node.feed_list_inline n hn]
  simp [ListBuilder.mapInline, OpenItem.between, Node.feed_outer]

theorem feed_paragraph_part (h : Holds tokens run) {r : ByteRange} {children : List Node}
    (hchildren : Node.allInline children = true) :
    ∃ more, (Node.element (.plain .paragraph) r children).events.foldl (ListBuilder.feed source)
        ⟨ordered, out, .between tokens flushed :: outer⟩ =
          ⟨ordered, out, .between more flushed :: outer⟩ ∧
      Holds more (run ++ (" " ++ Node.textAll source children)) := by
  obtain ⟨separated, hseparator, hholds⟩ := h.separator
  refine ⟨children.foldl (Node.appendTo source) separated, ?_, ?_⟩
  · have hstart : ListBuilder.start ⟨ordered, out, .between tokens flushed :: outer⟩
        (.plain .paragraph) (Text.textOf source r) =
          ⟨ordered, out, .between separated flushed :: outer⟩ := by
      simp [ListBuilder.start, ListBuilder.inSource, ListBuilder.mapInline, OpenItem.between,
        InlineBuilder.inSource, Tag.kind, hseparator]
    rw [Node.foldl_element, ListBuilder.feed_start, hstart, Node.feedAll_list_inline children hchildren]
    simp [ListBuilder.mapInline, OpenItem.between, Node.feedAll_outer, ListBuilder.stop,
      ListBuilder.inSource, InlineBuilder.inSource, Tag.kind]
  · rw [← String.append_assoc]
    exact hholds.append (Node.renderAll_foldl_appendTo source separated children)

variable (ordered out flushed outer) in
/-- The start of an element that is kept as its source, with the separator that it may need. -/
theorem start_kept (h : Holds tokens run) {tag : Tag} (htag : tag.isKept = true) (text : String) :
    ∃ more, ListBuilder.start ⟨ordered, out, .between tokens flushed :: outer⟩ tag text =
        ⟨ordered, out, ⟨⟨more ++ [.other text], none, 1⟩, flushed⟩ :: outer⟩ ∧
      Holds more (run ++ if tag.kind.isInline then "" else " ") := by
  have hspan : tag.spanKind? = none := by
    rw [Tag.isKept, Bool.and_eq_true, Option.isNone_iff_eq_none] at htag
    exact htag.1
  cases hinline : tag.kind.isInline with
  | true =>
    refine ⟨tokens, ?_, ?_⟩
    · rw [ListBuilder.start_inline hinline]
      simp [ListBuilder.mapInline, OpenItem.between, InlineBuilder.start, InlineBuilder.inSource,
        hspan]
    · rw [if_pos rfl, String.append_empty]
      exact h
  | false =>
    obtain ⟨separated, hseparator, hholds⟩ := h.separator
    refine ⟨separated, ?_, hholds⟩
    rw [ListBuilder.start_block htag hinline rfl]
    simp [ListBuilder.mapInline, OpenItem.between, hseparator, InlineBuilder.start,
      InlineBuilder.inSource, hspan]

theorem feed_kept_part (h : Holds tokens run) {tag : Tag} (htag : tag.isKept = true) {r : ByteRange}
    {children : List Node} :
    ∃ more, (Node.element tag r children).events.foldl (ListBuilder.feed source)
        ⟨ordered, out, .between tokens flushed :: outer⟩ =
          ⟨ordered, out, .between more flushed :: outer⟩ ∧
      Holds more
        (run ++ ((if tag.kind.isInline then "" else " ") ++ Text.textOf source r)) := by
  obtain ⟨more, hstart, hholds⟩ :=
    start_kept ordered out flushed outer h htag (Text.textOf source r)
  refine ⟨more ++ [.other (Text.textOf source r)], ?_, ?_⟩
  · rw [Node.foldl_element, ListBuilder.feed_start, hstart,
      Node.feedAll_list_inSource children _ rfl]
    simp [ListBuilder.stop, ListBuilder.inSource, ListBuilder.mapInline, InlineBuilder.stop,
      InlineBuilder.inSource, OpenItem.between]
  · rw [← String.append_assoc]
    exact hholds.append (by simp [InlineToken.renderAll_append, InlineToken.rendered])

/-- **A part of an item adds its text** to the run of the item. -/
theorem TextPart.feed (h : Holds tokens run) (part : TextPart) :
    ∃ more, part.node.events.foldl (ListBuilder.feed source)
        ⟨ordered, out, .between tokens flushed :: outer⟩ =
          ⟨ordered, out, .between more flushed :: outer⟩ ∧
      Holds more (run ++ part.text source) := by
  cases part with
  | inline n hn => exact feed_inline_part source h hn
  | kept tag r children htag => exact feed_kept_part source h htag
  | paragraph r children hchildren => exact feed_paragraph_part source h hchildren

end Parts

end MarkdownEdits
