import MarkdownEdits.Proofs.Layout
import MarkdownEdits.Proofs.ListParts

/-!
# Flattening a list

The list builder keeps a stack of open items, and writes the text of an item out when an item starts
within it and when the item ends. Over the events of a list tree this gives the entries of the tree.
-/

namespace MarkdownEdits

/-! ### The entries of an item -/

/-- The empty entry of an item without text goes behind those of its nested lists. -/
def placeLast (es : List String) : List String := es ++ [""]

section Entries

variable {source : String} {ordered : Bool} {out : List String} {tokens : List InlineToken}
  {flushed : Bool} {outer : List OpenItem} {run : String}

/-- The empty entry of an item without text, of which `text` is left when it ends. -/
def emptyEntry (flushed : Bool) (text : String) : List String :=
  if flushed = false ∧ Text.trim text = "" then [""] else []

/-- Text that is written out ahead of a nested list counts as text of the item. -/
theorem emptyEntry_append (text : String) :
    emptyEntry flushed (run ++ text) = emptyEntry (flushed || Text.trim run != "") text := by
  have h : flushed = false ∧ Text.trim (run ++ text) = "" ↔
      (flushed || Text.trim run != "") = false ∧ Text.trim text = "" := by
    rw [Text.trim_append_eq_empty_iff, Bool.or_eq_false_iff, bne_eq_false_iff_eq, and_assoc]
  simp only [emptyEntry, h]

/-- What is written out for the rest of an item of which `run` is still to be written. -/
def ItemContent.remaining (source : String) (flushed : Bool) (run : String)
    (content : ItemContent) : List String :=
  content.entries source placeLast run ++ emptyEntry flushed (run ++ content.ownText source)

theorem ItemContent.remaining_start (content : ItemContent) :
    content.remaining source false "" =
      if Text.trim (content.ownText source) = "" then placeLast (content.entries source placeLast "")
      else content.entries source placeLast "" := by
  rw [remaining, String.empty_append, emptyEntry]
  by_cases h : Text.trim (content.ownText source) = ""
  · rw [if_pos ⟨rfl, h⟩, if_pos h]
    rfl
  · rw [if_neg (fun h' => h h'.2), if_neg h, List.append_nil]

section Remaining

variable (rest : ItemContent)

theorem ItemContent.remaining_text (part : TextPart) :
    (ItemContent.text part rest).remaining source flushed run =
      rest.remaining source flushed (run ++ part.text source) := by
  simp only [remaining, entries, ownText, String.append_assoc]

theorem ItemContent.remaining_list_nil {first : Option Nat} {r : ByteRange} :
    (ItemContent.list first r .nil rest).remaining source flushed run =
      rest.remaining source flushed run := rfl

/-- A nested list with items cuts off the text ahead of it. -/
theorem ItemContent.remaining_list {first : Option Nat} {r : ByteRange} {items : ItemList}
    (h : items.isEmpty = false) :
    (ItemContent.list first r items rest).remaining source flushed run =
      entry run ++ items.entries source placeLast ++
        rest.remaining source (flushed || Text.trim run != "") "" := by
  simp only [remaining, entries, ownText, h, Bool.false_eq_true, if_false, String.empty_append,
    emptyEntry_append, List.append_assoc]

end Remaining

theorem Holds.trim_plainText (h : Holds tokens run) :
    Text.trim (InlineBuilder.plainText ⟨tokens, none, 0⟩) = Text.trim run := by
  rw [← h.trim_eq, InlineBuilder.plainText]
  simp

theorem start_item (h : Holds tokens run) (text : String) :
    ListBuilder.start ⟨ordered, out, .between tokens flushed :: outer⟩ (.plain .item) text =
      ⟨ordered, out ++ entry run,
        .between [] false :: .between [] (flushed || Text.trim run != "") :: outer⟩ := by
  have htrim := h.trim_plainText
  by_cases hrun : Text.trim run = ""
  · simp [ListBuilder.start, ListBuilder.inSource, InlineBuilder.inSource, ListBuilder.startItem,
      OpenItem.between, Tag.kind, htrim, hrun, entry]
  · simp [ListBuilder.start, ListBuilder.inSource, InlineBuilder.inSource, ListBuilder.startItem,
      OpenItem.between, Tag.kind, htrim, hrun, entry]

theorem stop_item (h : Holds tokens run) :
    ListBuilder.stop ⟨ordered, out, .between tokens flushed :: outer⟩ .item =
      ⟨ordered, out ++ ItemContent.nil.remaining source flushed run, outer⟩ := by
  have htrim := h.trim_plainText
  by_cases hrun : Text.trim run = ""
  · cases flushed <;> simp [ListBuilder.stop, ListBuilder.inSource, InlineBuilder.inSource,
      ListBuilder.stopItem, OpenItem.between, htrim, hrun, ItemContent.remaining,
      ItemContent.entries, ItemContent.ownText, entry, emptyEntry]
  · simp [ListBuilder.stop, ListBuilder.inSource, InlineBuilder.inSource, ListBuilder.stopItem,
      OpenItem.between, htrim, hrun, ItemContent.remaining, ItemContent.entries,
      ItemContent.ownText, entry, emptyEntry]

/-- The start and the end of a nested list change nothing. -/
theorem start_list (first : Option Nat) (r : ByteRange) :
    ListBuilder.feed source ⟨ordered, out, .between tokens flushed :: outer⟩
        ⟨.start (.list first), r⟩ =
      ⟨ordered, out, .between tokens flushed :: outer⟩ := rfl

theorem stop_list (first : Option Nat) (r : ByteRange) :
    ListBuilder.feed source ⟨ordered, out, .between tokens flushed :: outer⟩
        ⟨.stop (Tag.list first).kind, r⟩ =
      ⟨ordered, out, .between tokens flushed :: outer⟩ := rfl

end Entries

mutual
/-- **The events of an item write out its entries.** -/
theorem ItemContent.feed {source : String} (content : ItemContent) (ordered : Bool)
    (out : List String) (flushed : Bool) (outer : List OpenItem) {tokens : List InlineToken}
    {run : String} (h : Holds tokens run) :
    ((Node.eventsAll content.nodes).foldl (ListBuilder.feed source)
        ⟨ordered, out, .between tokens flushed :: outer⟩).stop .item =
      ⟨ordered, out ++ content.remaining source flushed run, outer⟩ := by
  cases content with
  | nil => exact stop_item h
  | text part rest =>
    obtain ⟨more, hfeed, hmore⟩ := TextPart.feed source h part
    rw [ItemContent.nodes, Node.foldl_eventsAll_cons, hfeed,
      ItemContent.feed rest ordered out flushed outer hmore, ItemContent.remaining_text]
  | list first r items rest =>
    rw [ItemContent.nodes, Node.foldl_eventsAll_cons, Node.foldl_element, start_list]
    cases hitems : items.isEmpty with
    | true =>
      obtain rfl := ItemList.eq_nil_of_isEmpty hitems
      rw [ItemList.nodes, Node.eventsAll, List.foldl_nil, stop_list,
        ItemContent.feed rest ordered out flushed outer h, ItemContent.remaining_list_nil]
    | false =>
      rw [ItemList.feed items hitems ordered out flushed outer h, stop_list,
        ItemContent.feed rest ordered _ _ outer holds_nil, ItemContent.remaining_list rest hitems,
        List.append_assoc]
/-- **The events of a nested list write out the entries of its items**, and ahead of them the text
of the item that the list is in. -/
theorem ItemList.feed {source : String} (items : ItemList) (hitems : items.isEmpty = false)
    (ordered : Bool) (out : List String) (flushed : Bool) (outer : List OpenItem)
    {tokens : List InlineToken} {run : String} (h : Holds tokens run) :
    (Node.eventsAll items.nodes).foldl (ListBuilder.feed source)
        ⟨ordered, out, .between tokens flushed :: outer⟩ =
      ⟨ordered, out ++ (entry run ++ items.entries source placeLast),
        .between [] (flushed || Text.trim run != "") :: outer⟩ := by
  cases items with
  | nil => cases hitems
  | cons r content rest =>
    rw [ItemList.nodes, Node.foldl_eventsAll_cons, Node.foldl_element, ListBuilder.feed_start,
      start_item h, ListBuilder.feed_stop, Tag.kind, ItemContent.feed content _ _ _ _ holds_nil,
      ItemContent.remaining_start]
    cases hrest : rest.isEmpty with
    | true =>
      obtain rfl := ItemList.eq_nil_of_isEmpty hrest
      simp [ItemList.nodes, Node.eventsAll, ItemList.entries]
    | false =>
      rw [ItemList.feed rest hrest ordered _ _ outer holds_nil]
      simp [ItemList.entries, entry]
end

/-! ### The token of a list -/

section Token

variable {source : String}

variable (source) in
theorem ItemList.feed_outermost (items : ItemList) (ordered : Bool) (out : List String) :
    (Node.eventsAll items.nodes).foldl (ListBuilder.feed source) ⟨ordered, out, []⟩ =
      ⟨ordered, out ++ items.entries source placeLast, []⟩ := by
  cases items with
  | nil => simp [ItemList.nodes, Node.eventsAll, ItemList.entries]
  | cons r content rest =>
    have hstart : ListBuilder.feed source ⟨ordered, out, []⟩ ⟨.start (.plain .item), r⟩ =
        ⟨ordered, out, [.between [] false]⟩ := rfl
    rw [ItemList.nodes, Node.foldl_eventsAll_cons, Node.foldl_element, hstart,
      ListBuilder.feed_stop, Tag.kind, ItemContent.feed content _ _ _ _ holds_nil,
      ItemContent.remaining_start, rest.feed_outermost, ItemList.entries, List.append_assoc]

/-- A list at the outermost level is lexed to the entries of its tree. -/
theorem lex_list_eq {items : ItemList} {first : Option Nat} {r : ByteRange}
    (hread : Readable source (items.node first r).events) :
    lex ⟨source, (items.node first r).events⟩ =
      .ok [.list (items.entries source placeLast) first.isSome] := by
  apply lex_node hread
  have hfeed := items.feed_outermost source first.isSome []
  rw [List.nil_append] at hfeed
  simp only [ItemList.node, Node.token, Node.block, OpenBlock.ofTag, Except.map,
    OpenBlock.foldl_feed_list, hfeed, bind, Except.bind, OpenBlock.token]

/-- **A list is flattened in order.** A list at the outermost level becomes one token, ordered as
the list is. Its entries are those of the items of the whole tree: an item has one entry for each of
its texts that is not blank, where the text stands between the lists nested in the item, and an item
without text has one empty entry, somewhere among those of its nested lists. If all text of every
item stands ahead of the nested lists, and no item that has nested items is without text, there is
just one entry for each item, ahead of those of the items inside it. -/
theorem lex_list {items : ItemList} {first : Option Nat} {r : ByteRange}
    (hread : Readable source (items.node first r).events) :
    (∃ place : List String → List String,
      (∀ es, ∃ before after, es = before ++ after ∧ place es = before ++ "" :: after) ∧
      lex ⟨source, (items.node first r).events⟩ =
        .ok [.list (items.entries source place) first.isSome]) ∧
    (items.AllLead source →
      lex ⟨source, (items.node first r).events⟩ =
        .ok [.list (items.preorder source) first.isSome]) := by
  have hlex := lex_list_eq hread
  refine ⟨⟨placeLast, fun es => ⟨es, [], (List.append_nil es).symm, rfl⟩, hlex⟩, fun hlead => ?_⟩
  have hplace : placeLast [] = [""] := rfl
  rw [hlex, items.entries_eq_preorder hplace hlead]

end Token

/-- An item in an item in an item, the innermost one empty, and one more item behind them: the list in
`"- a\n  - b\n    -\n- d\n"`. -/
def nestedList : ItemList :=
  .cons ⟨0, 16⟩
    (.text (.inline (.leaf (.text "a") ⟨2, 3⟩) rfl)
      (.list none ⟨6, 16⟩
        (.cons ⟨6, 16⟩
          (.text (.inline (.leaf (.text "b") ⟨8, 9⟩) rfl)
            (.list none ⟨14, 16⟩ (.cons ⟨14, 16⟩ .nil .nil) .nil))
          .nil)
        .nil))
    (.cons ⟨16, 20⟩ (.text (.inline (.leaf (.text "d") ⟨18, 19⟩) rfl) .nil) .nil)

theorem lex_list_of_nested_items :
    Readable "- a\n  - b\n    -\n- d\n" (nestedList.node none ⟨0, 20⟩).events ∧
    nestedList.AllLead "- a\n  - b\n    -\n- d\n" ∧
    lex ⟨"- a\n  - b\n    -\n- d\n", (nestedList.node none ⟨0, 20⟩).events⟩ =
      .ok [.list ["a", "b", "", "d"] false] := by
  have hread : Readable "- a\n  - b\n    -\n- d\n" (nestedList.node none ⟨0, 20⟩).events := by
    decide
  have hlead : nestedList.AllLead "- a\n  - b\n    -\n- d\n" := by
    have ha : ¬ Text.IsBlankText "a" := fun h => absurd (h 'a' (by decide)) (by decide)
    have hb : ¬ Text.IsBlankText "b" := fun h => absurd (h 'b' (by decide)) (by decide)
    have hrest : ∀ run ∈ [""], Text.IsBlankText run := by simp [Text.IsBlankText]
    have hlast : (ItemList.cons ⟨14, 16⟩ .nil .nil).AllLead "- a\n  - b\n    -\n- d\n" :=
      ⟨⟨"", [], rfl, List.forall_mem_nil _, fun h => absurd rfl h⟩, trivial, trivial⟩
    refine ⟨⟨"a", [""], rfl, hrest, fun _ => ha⟩, ⟨⟨?_, ⟨hlast, trivial⟩, trivial⟩, trivial⟩,
      ⟨"d", [], rfl, List.forall_mem_nil _, fun h => absurd rfl h⟩, trivial, trivial⟩
    exact ⟨"b", [""], rfl, hrest, fun _ => hb⟩
  obtain ⟨-, hlex⟩ := lex_list hread
  exact ⟨hread, hlead, hlex hlead⟩

/-- Two items, the first of which has text on both sides of a nested item, of the list in
`"- a\n  - b\n\n  c\n- d\n"`. -/
def resumedList : ItemList :=
  .cons ⟨0, 15⟩
    (.text (.paragraph ⟨2, 4⟩ [.leaf (.text "a") ⟨2, 3⟩] rfl)
      (.list none ⟨6, 13⟩
        (.cons ⟨6, 11⟩ (.text (.inline (.leaf (.text "b") ⟨8, 9⟩) rfl) .nil) .nil)
        (.text (.paragraph ⟨13, 15⟩ [.leaf (.text "c") ⟨13, 14⟩] rfl) .nil)))
    (.cons ⟨15, 19⟩ (.text (.paragraph ⟨17, 19⟩ [.leaf (.text "d") ⟨17, 18⟩] rfl) .nil) .nil)

/-- The text behind a nested item has an entry of its own, so that three items make four entries. -/
theorem lex_resumed_list :
    Readable "- a\n  - b\n\n  c\n- d\n" (resumedList.node none ⟨0, 19⟩).events ∧
    resumedList.preorder "- a\n  - b\n\n  c\n- d\n" = ["a c", "b", "d"] ∧
    lex ⟨"- a\n  - b\n\n  c\n- d\n", (resumedList.node none ⟨0, 19⟩).events⟩ =
      .ok [.list ["a", "b", "c", "d"] false] :=
  ⟨by decide, rfl, rfl⟩

end MarkdownEdits
