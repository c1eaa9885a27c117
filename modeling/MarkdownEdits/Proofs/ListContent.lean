import MarkdownEdits.Proofs.Flattening

/-!
# The content of a list

The text of a list is moved about while it is read: from the run of an item to the entries when
another item starts inside it, and again when the item ends. None of it is lost on the way, doubled
or put out of order (`lex_list_content`). What carries the proof is that the entries, and behind
them the run of the innermost item, are all that has been read so far, blanks apart: the items
further out hold nothing by then.
-/

namespace MarkdownEdits

/-! ### Content -/

mutual
/-- What a node contributes to a list. An item, a list or a paragraph contributes what is inside it,
and any other node its text: that of a strong, emphasised or linked one is the text inside it, and
that of another element its source, whatever is inside. -/
def Node.content (source : String) : Node → String
  | .leaf l r => (Node.leaf l r).text source
  | .element tag r children =>
    match tag.kind with
    | .item | .list | .paragraph => Node.contentAll source children
    | _ => (Node.element tag r children).text source
def Node.contentAll (source : String) : List Node → String
  | [] => ""
  | n :: ns => n.content source ++ Node.contentAll source ns
end

mutual
/-- A node in which strong, emphasised and linked text is inline all through. Within an element that
is kept as its source there may be anything. -/
def Node.isItemPart : Node → Bool
  | .leaf _ _ => true
  | .element tag _ children =>
    match tag.kind with
    | .item | .list | .paragraph => Node.allItemParts children
    | _ => tag.isKept || Node.allInline children
def Node.allItemParts : List Node → Bool
  | [] => true
  | n :: ns => n.isItemPart && Node.allItemParts ns
end

/-- An item that holds parts of items. -/
def Node.isItem : Node → Bool
  | .element (.plain .item) _ children => Node.allItemParts children
  | _ => false

/-! ### Texts without blanks -/

namespace Text

theorem withoutBlanks_append (s t : String) :
    withoutBlanks (s ++ t) = withoutBlanks s ++ withoutBlanks t := by
  rw [withoutBlanks, String.toList_append, List.filter_append, String.ofList_append, withoutBlanks,
    withoutBlanks]

theorem filter_dropWhile {α : Type} (p : α → Bool) (as : List α) :
    ((as.dropWhile p).filter fun a => !p a) = as.filter fun a => !p a := by
  induction as with
  | nil => rfl
  | cons a as ih =>
    by_cases ha : p a = true
    · rw [List.dropWhile_cons_of_pos ha, ih, List.filter_cons_of_neg (by simp [ha])]
    · rw [List.dropWhile_cons_of_neg ha]

/-- Trimming takes nothing but blanks. -/
theorem withoutBlanks_trim (s : String) : withoutBlanks (trim s) = withoutBlanks s := by
  rw [withoutBlanks, trim, String.toList_ofList, dropEndWhile, List.filter_reverse,
    filter_dropWhile, ← List.filter_reverse, List.reverse_reverse, filter_dropWhile, withoutBlanks]

end Text

/-! ### What has been read -/

/-- What entries and the text behind them hold, blanks apart. -/
def gathered (out : List String) (run : String) : String :=
  Text.withoutBlanks (String.join out ++ run)

section Gathered

variable (out : List String) (run text : String)

theorem gathered_append :
    gathered out (run ++ text) = gathered out run ++ Text.withoutBlanks text := by
  rw [gathered, ← String.append_assoc, Text.withoutBlanks_append, gathered]

/-- A text that is written out stays gathered. -/
theorem gathered_entry : gathered (out ++ entry run) "" = gathered out run := by
  have hentry : Text.withoutBlanks (String.join (entry run)) = Text.withoutBlanks run := by
    by_cases h : Text.IsBlankText run
    · rw [entry_of_blank h, Text.withoutBlanks_eq_empty_iff.2 h]
      rfl
    · rw [entry_of_not_blank h, String.join_cons, String.join_nil, String.append_empty,
        Text.withoutBlanks_trim]
  rw [gathered, String.append_empty, String.join_append, Text.withoutBlanks_append, hentry,
    gathered, Text.withoutBlanks_append]

/-- An item that ends writes out what is left of its text, and an empty entry at most besides. -/
theorem gathered_remaining (source : String) (flushed : Bool) :
    gathered (out ++ ItemContent.nil.remaining source flushed run) "" = gathered out run := by
  have hempty : String.join (emptyEntry flushed (run ++ "")) = "" := by
    rw [emptyEntry]
    split <;> rfl
  rw [ItemContent.remaining, ItemContent.entries, ItemContent.ownText, ← List.append_assoc,
    gathered, String.join_append (m := emptyEntry _ _), hempty, String.append_empty, ← gathered,
    gathered_entry]

end Gathered

/-! ### Nodes of an item -/

/-- Within an item the events add `text` to what has been read, and leave the items further out
alone. -/
def Adds (source : String) (events : List SourceEvent) (text : String) : Prop :=
  ∀ (ordered : Bool) (out : List String) (flushed : Bool) (outer : List OpenItem)
    {tokens : List InlineToken} {run : String}, Holds tokens run →
    ∃ out' tokens' flushed' run', events.foldl (ListBuilder.feed source)
        ⟨ordered, out, .between tokens flushed :: outer⟩ =
          ⟨ordered, out', .between tokens' flushed' :: outer⟩ ∧
      Holds tokens' run' ∧ gathered out' run' = gathered out run ++ Text.withoutBlanks text

section Adds

variable {source : String}

theorem adds_nil : Adds source [] "" := by
  intro ordered out flushed outer tokens run h
  exact ⟨out, tokens, flushed, run, rfl, h, (String.append_empty).symm⟩

theorem Adds.append {es es' : List SourceEvent} {text text' : String} (h : Adds source es text)
    (h' : Adds source es' text') : Adds source (es ++ es') (text ++ text') := by
  intro ordered out flushed outer tokens run hholds
  obtain ⟨out₁, tokens₁, flushed₁, run₁, hfeed₁, hholds₁, hgathered₁⟩ :=
    h ordered out flushed outer hholds
  obtain ⟨out₂, tokens₂, flushed₂, run₂, hfeed₂, hholds₂, hgathered₂⟩ :=
    h' ordered out₁ flushed₁ outer hholds₁
  refine ⟨out₂, tokens₂, flushed₂, run₂, ?_, hholds₂, ?_⟩
  · rw [List.foldl_append, hfeed₁, hfeed₂]
  · rw [hgathered₂, hgathered₁, Text.withoutBlanks_append, String.append_assoc]

/-- An inline node adds its text. -/
theorem adds_inline {n : Node} (hn : n.isInline = true) : Adds source n.events (n.text source) := by
  intro ordered out flushed outer tokens run h
  obtain ⟨more, hfeed, hholds⟩ := feed_inline_part source h hn
  exact ⟨out, more, flushed, _, hfeed, hholds, gathered_append out run _⟩

/-- An element that is kept adds its source, whatever is inside. -/
theorem adds_kept {tag : Tag} (htag : tag.isKept = true) (r : ByteRange) (children : List Node) :
    Adds source (Node.element tag r children).events (Text.textOf source r) := by
  intro ordered out flushed outer tokens run h
  obtain ⟨more, hfeed, hholds⟩ := feed_kept_part source h htag
  refine ⟨out, more, flushed, _, hfeed, hholds, ?_⟩
  have hblank : Text.withoutBlanks (if tag.kind.isInline then "" else " ") = "" := by
    split <;> rfl
  rw [gathered_append, Text.withoutBlanks_append, hblank, String.empty_append]

/-- A nested list adds what is inside it. -/
theorem adds_list {tag : Tag} (htag : tag.kind = .list) {r : ByteRange} {children : List Node}
    {text : String} (h : Adds source (Node.eventsAll children) text) :
    Adds source (Node.element tag r children).events text := by
  intro ordered out flushed outer tokens run hholds
  obtain ⟨out', tokens', flushed', run', hfeed, hholds', hgathered⟩ :=
    h ordered out flushed outer hholds
  refine ⟨out', tokens', flushed', run', ?_, hholds', hgathered⟩
  have hstart : ListBuilder.start ⟨ordered, out, .between tokens flushed :: outer⟩ tag
      (Text.textOf source r) = ⟨ordered, out, .between tokens flushed :: outer⟩ := by
    simp [ListBuilder.start, ListBuilder.inSource, OpenItem.between, InlineBuilder.inSource, htag]
  rw [Node.foldl_element, ListBuilder.feed_start, hstart, hfeed, ListBuilder.feed_stop, htag]
  rfl

/-- A paragraph adds what is inside it, apart from what is ahead of it. -/
theorem adds_paragraph {r : ByteRange} {children : List Node} {text : String}
    (h : Adds source (Node.eventsAll children) text) :
    Adds source (Node.element (.plain .paragraph) r children).events text := by
  intro ordered out flushed outer tokens run hholds
  obtain ⟨separated, hseparator, hseparated⟩ := hholds.separator
  obtain ⟨out', tokens', flushed', run', hfeed, hholds', hgathered⟩ :=
    h ordered out flushed outer hseparated
  refine ⟨out', tokens', flushed', run', ?_, hholds', ?_⟩
  · have hstart : ListBuilder.start ⟨ordered, out, .between tokens flushed :: outer⟩
        (.plain .paragraph) (Text.textOf source r) =
          ⟨ordered, out, .between separated flushed :: outer⟩ := by
      simp [ListBuilder.start, ListBuilder.inSource, ListBuilder.mapInline, OpenItem.between,
        InlineBuilder.inSource, Tag.kind, hseparator]
    rw [Node.foldl_element, ListBuilder.feed_start, hstart, hfeed]
    rfl
  · rw [hgathered, gathered_append, Text.withoutBlanks_eq_empty_iff.2 Text.isBlankText_space,
      String.append_empty]

/-- What is inside an item is written out by the time the item has ended. -/
theorem Adds.stop_item {events : List SourceEvent} {text : String} (h : Adds source events text)
    (ordered : Bool) (out : List String) (outer : List OpenItem) :
    ∃ out', (events.foldl (ListBuilder.feed source)
        ⟨ordered, out, .between [] false :: outer⟩).stop .item = ⟨ordered, out', outer⟩ ∧
      gathered out' "" = gathered out "" ++ Text.withoutBlanks text := by
  obtain ⟨out', tokens, flushed, run, hfeed, hholds, hgathered⟩ :=
    h ordered out false outer holds_nil
  refine ⟨out' ++ ItemContent.nil.remaining source flushed run, ?_, ?_⟩
  · rw [hfeed, MarkdownEdits.stop_item hholds]
  · rw [gathered_remaining, hgathered]

/-- An item within an item writes out the text ahead of it, and then what is inside it. -/
theorem adds_item {r : ByteRange} {children : List Node} {text : String}
    (h : Adds source (Node.eventsAll children) text) :
    Adds source (Node.element (.plain .item) r children).events text := by
  intro ordered out flushed outer tokens run hholds
  obtain ⟨out', hstop, hgathered⟩ := h.stop_item ordered (out ++ entry run)
    (.between [] (flushed || Text.trim run != "") :: outer)
  refine ⟨out', [], flushed || Text.trim run != "", "", ?_, holds_nil, ?_⟩
  · rw [Node.foldl_element, ListBuilder.feed_start, start_item hholds, ListBuilder.feed_stop]
    exact hstop
  · rw [hgathered, gathered_entry]

mutual
/-- **A part of an item adds its content.** -/
theorem Node.adds_content (n : Node) (h : n.isItemPart = true) :
    Adds source n.events (n.content source) := by
  cases n with
  | leaf l r => exact adds_inline rfl
  | element tag r children =>
    have hinside : Node.allItemParts children = true →
        Adds source (Node.eventsAll children) (Node.contentAll source children) :=
      Node.adds_contentAll children
    cases tag with
    | list first => exact adds_list rfl (hinside h)
    | heading level => exact adds_kept rfl r children
    | link target => exact adds_inline h
    | plain kind =>
      cases kind with
      | item => exact adds_item (hinside h)
      | list => exact adds_list rfl (hinside h)
      | paragraph => exact adds_paragraph (hinside h)
      | strong => exact adds_inline h
      | emphasis => exact adds_inline h
      | _ => exact adds_kept rfl r children
theorem Node.adds_contentAll (nodes : List Node) (h : Node.allItemParts nodes = true) :
    Adds source (Node.eventsAll nodes) (Node.contentAll source nodes) := by
  cases nodes with
  | nil => exact adds_nil
  | cons n ns =>
    rw [Node.allItemParts, Bool.and_eq_true] at h
    exact (Node.adds_content n h.1).append (Node.adds_contentAll ns h.2)
end

end Adds

/-! ### The entries of a list -/

section List

variable {source : String}

variable (source) in
/-- **The items of a list write out their content**, one after the other. -/
theorem feed_items {items : List Node} (hitems : ∀ n ∈ items, n.isItem = true) (ordered : Bool)
    (out : List String) :
    ∃ out', (Node.eventsAll items).foldl (ListBuilder.feed source) ⟨ordered, out, []⟩ =
        ⟨ordered, out', []⟩ ∧
      gathered out' "" =
        gathered out "" ++ Text.withoutBlanks (Node.contentAll source items) := by
  induction items generalizing out with
  | nil => exact ⟨out, rfl, (String.append_empty).symm⟩
  | cons n items ih =>
    obtain ⟨hn, hrest⟩ := List.forall_mem_cons.1 hitems
    unfold Node.isItem at hn
    split at hn
    · next r children =>
      have hadds : Adds source (Node.eventsAll children) (Node.contentAll source children) :=
        Node.adds_contentAll children hn
      obtain ⟨out₁, hstop, hgathered₁⟩ := hadds.stop_item ordered out []
      obtain ⟨out₂, hfeed, hgathered₂⟩ := ih hrest out₁
      have hstart : ListBuilder.feed source ⟨ordered, out, []⟩ ⟨.start (.plain .item), r⟩ =
          ⟨ordered, out, [.between [] false]⟩ := rfl
      refine ⟨out₂, ?_, ?_⟩
      · rw [Node.foldl_eventsAll_cons, Node.foldl_element, hstart, ListBuilder.feed_stop, Tag.kind,
          hstop, hfeed]
      · rw [hgathered₂, hgathered₁, Node.contentAll, Text.withoutBlanks_append, String.append_assoc]
        rfl
    · cases hn

/-- **The content of a list is neither lost, doubled nor put out of order.** A list at the outermost
level becomes one token, ordered as the list is, and its entries behind one another are what the
nodes inside its items contribute, in the order of their events: the two differ in blanks alone. -/
theorem lex_list_content {first : Option Nat} {r : ByteRange} {items : List Node}
    (hitems : ∀ n ∈ items, n.isItem = true)
    (hread : Readable source (Node.element (.list first) r items).events) :
    ∃ entries, lex ⟨source, (Node.element (.list first) r items).events⟩ =
        .ok [.list entries first.isSome] ∧
      Text.withoutBlanks (String.join entries) =
        Text.withoutBlanks (Node.contentAll source items) := by
  obtain ⟨entries, hfeed, hgathered⟩ := feed_items source hitems first.isSome []
  refine ⟨entries, ?_, ?_⟩
  · apply lex_node hread
    simp only [Node.token, Node.block, OpenBlock.ofTag, Except.map, OpenBlock.foldl_feed_list,
      hfeed, bind, Except.bind, OpenBlock.token]
  · rw [gathered, gathered, String.append_empty] at hgathered
    rw [hgathered]
    exact String.empty_append

end List

/-- The items of ``"- a\n  - b\n\n  *c* `d`\n\n  > - x\n- e\n"``: the first one has text on both
sides of a nested list, and a quoted list behind it. -/
def quotingItems : List Node := [
  .element (.plain .item) ⟨0, 30⟩ [
    .element (.plain .paragraph) ⟨2, 4⟩ [.leaf (.text "a") ⟨2, 3⟩],
    .element (.list none) ⟨6, 11⟩
      [.element (.plain .item) ⟨6, 10⟩ [.leaf (.text "b") ⟨8, 9⟩]],
    .element (.plain .paragraph) ⟨13, 21⟩ [
      .element (.plain .emphasis) ⟨13, 16⟩ [.leaf (.text "c") ⟨14, 15⟩],
      .leaf (.text " ") ⟨16, 17⟩, .leaf (.code "d") ⟨17, 20⟩],
    .element (.plain .blockQuote) ⟨24, 30⟩ [
      .element (.list none) ⟨26, 30⟩
        [.element (.plain .item) ⟨26, 30⟩ [.leaf (.text "x") ⟨28, 29⟩]]]],
  .element (.plain .item) ⟨30, 34⟩
    [.element (.plain .paragraph) ⟨32, 34⟩ [.leaf (.text "e") ⟨32, 33⟩]]]

theorem lex_list_content_of_quoting_items :
    (∀ n ∈ quotingItems, n.isItem = true) ∧
    Readable "- a\n  - b\n\n  *c* `d`\n\n  > - x\n- e\n"
      (Node.element (.list none) ⟨0, 34⟩ quotingItems).events ∧
    ∃ entries, entries = ["a", "b", "c `d` > - x", "e"] ∧
      lex ⟨"- a\n  - b\n\n  *c* `d`\n\n  > - x\n- e\n",
        (Node.element (.list none) ⟨0, 34⟩ quotingItems).events⟩ = .ok [.list entries false] ∧
      Text.withoutBlanks (String.join entries) = "abc`d`>-xe" := by
  have hitems : ∀ n ∈ quotingItems, n.isItem = true := by decide
  have hread : Readable "- a\n  - b\n\n  *c* `d`\n\n  > - x\n- e\n"
      (Node.element (.list none) ⟨0, 34⟩ quotingItems).events := by decide
  obtain ⟨entries, hlex, hcontent⟩ := lex_list_content hitems hread
  have hentries : lex ⟨"- a\n  - b\n\n  *c* `d`\n\n  > - x\n- e\n",
      (Node.element (.list none) ⟨0, 34⟩ quotingItems).events⟩ =
        .ok [.list ["a", "b", "c `d` > - x", "e"] false] := rfl
  refine ⟨hitems, hread, entries, ?_, hlex, ?_⟩
  · rw [hlex] at hentries
    simpa using hentries
  · rw [hcontent]
    rfl

end MarkdownEdits
