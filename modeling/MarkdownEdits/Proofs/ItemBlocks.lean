import MarkdownEdits.Proofs.Flattening
import MarkdownEdits.Proofs.Spacing

/-!
# The blocks of an item

An item holds blocks: paragraphs, headings, quotes, runs of text and so on. Between two nested lists
they make one entry, in which the text of each of them stands. White space is put ahead of some
kinds of blocks only, and `lex_item_blocks` says between which blocks there is some.
-/

namespace MarkdownEdits

/-! ### Blocks -/

/-- The blocks that an item keeps as their source. -/
def TagKind.isBlock : TagKind → Bool
  | .heading | .blockQuote | .codeBlock | .htmlBlock | .table => true
  | _ => false

/-- The blocks with white space put ahead of them. -/
def TagKind.standsApart : TagKind → Bool
  | .paragraph | .blockQuote | .codeBlock | .htmlBlock => true
  | _ => false

theorem TagKind.isInline_of_isBlock {kind : TagKind} (h : kind.isBlock = true) :
    kind.isInline = !kind.standsApart := by
  cases kind <;> first | rfl | cases h

theorem Tag.isKept_of_isBlock {tag : Tag} (h : tag.kind.isBlock = true) : tag.isKept = true := by
  cases tag with
  | heading level => rfl
  | list first => cases h
  | link target => cases h
  | plain kind => cases kind <;> first | rfl | cases h

/-- A node of a run of text: an inline node, and no heading or table. -/
def Node.isPhrase : Node → Bool
  | .leaf _ _ => true
  | .element tag r children => !tag.kind.isBlock && (Node.element tag r children).isInline

theorem Node.isInline_of_isPhrase {n : Node} (h : n.isPhrase = true) : n.isInline = true := by
  cases n with
  | leaf l r => rfl
  | element tag r children => exact (Bool.and_eq_true_iff.1 h).2

/-- A block in an item. -/
inductive ItemBlock
  /-- Text that is in no paragraph, as that of an item of a tight list. -/
  | text (nodes : List {n : Node // n.isPhrase = true})
  | paragraph (range : ByteRange) (children : List Node)
      (allInline : Node.allInline children = true)
  /-- A thematic break. -/
  | rule (range : ByteRange)
  | kept (tag : Tag) (range : ByteRange) (children : List Node) (isBlock : tag.kind.isBlock = true)

namespace ItemBlock

/-- The parts of an item that a block is made of. -/
def parts : ItemBlock → List TextPart
  | .text nodes => nodes.map fun n => .inline n.1 (Node.isInline_of_isPhrase n.2)
  | .paragraph r children h => [.paragraph r children h]
  | .rule r => [.inline (.leaf .other r) rfl]
  | .kept tag r children h => [.kept tag r children (Tag.isKept_of_isBlock h)]

def standsApart : ItemBlock → Bool
  | .text _ => false
  | .paragraph .. => TagKind.paragraph.standsApart
  | .rule _ => false
  | .kept tag .. => tag.kind.standsApart

section Texts

variable (source : String)

/-- What a block contributes: the text of what is inside a paragraph, and the source of a block that
is kept. -/
def contribution : ItemBlock → String
  | .text nodes => String.join (nodes.map fun n => n.1.text source)
  | .paragraph _ children _ => Node.textAll source children
  | .rule r => Text.textOf source r
  | .kept _ r _ _ => Text.textOf source r

/-- A block that contributes more than white space. -/
def HasText (b : ItemBlock) : Prop := ¬ Text.IsBlankText (b.contribution source)

/-- What the blocks with text contribute, without the white space around it. -/
def texts (blocks : List ItemBlock) : List String :=
  (blocks.map fun b => Text.trim (b.contribution source)).filter (· ≠ "")

/-- White space ahead of the first text of the blocks, put there or their own. -/
def SpaceAhead (source : String) : List ItemBlock → Prop
  | [] => False
  | b :: blocks => b.standsApart = true ∨ Text.BeginsBlank (b.contribution source) ∨
      b.contribution source = "" ∧ SpaceAhead source blocks

/-- There is white space between each block with text and the next one with text: at the end of the
first, or ahead of what is behind it. -/
def NoneGlued (source : String) : List ItemBlock → Prop
  | [] => True
  | b :: blocks =>
    (b.HasText source → (∃ next ∈ blocks, next.HasText source) →
      Text.EndsBlank (b.contribution source) ∨ SpaceAhead source blocks) ∧ NoneGlued source blocks

/-- The text that a block adds to an item. -/
def added (b : ItemBlock) : String :=
  (if b.standsApart then " " else "") ++ b.contribution source

def addedAll (blocks : List ItemBlock) : String := String.join (blocks.map (added source))

end Texts

end ItemBlock

/-! ### The text of blocks -/

namespace ItemBlock

section AddedAll

variable {source : String} {b : ItemBlock} {blocks : List ItemBlock}

theorem addedAll_cons : addedAll source (b :: blocks) = b.added source ++ addedAll source blocks :=
  String.join_cons

theorem isBlankText_added : Text.IsBlankText (b.added source) ↔ ¬ b.HasText source := by
  rw [added, Text.isBlankText_append, HasText, not_not, and_iff_right]
  split
  · exact Text.isBlankText_space
  · nofun

theorem trim_added : Text.trim (b.added source) = Text.trim (b.contribution source) := by
  rw [added]
  split
  · exact Text.trim_blank_append Text.isBlankText_space
  · rw [String.empty_append]

theorem endsBlank_added (h : b.HasText source) :
    Text.EndsBlank (b.added source) ↔ Text.EndsBlank (b.contribution source) := by
  rw [added, Text.endsBlank_append]
  simp [Text.ne_empty_of_not_isBlankText h]

theorem isBlankText_addedAll :
    Text.IsBlankText (addedAll source blocks) ↔ ¬ ∃ b ∈ blocks, b.HasText source := by
  induction blocks with
  | nil => simp [addedAll, Text.IsBlankText]
  | cons b blocks ih =>
    simp only [addedAll_cons, Text.isBlankText_append, isBlankText_added, ih, List.mem_cons,
      exists_eq_or_imp, not_or]

theorem beginsBlank_addedAll :
    Text.BeginsBlank (addedAll source blocks) ↔ SpaceAhead source blocks := by
  induction blocks with
  | nil => simp [addedAll, Text.BeginsBlank, SpaceAhead]
  | cons b blocks ih =>
    rw [addedAll_cons, Text.beginsBlank_append, ih, SpaceAhead, added]
    cases b.standsApart
    · simp
    · simp [Text.beginsBlank_append, Text.isBlankText_space.beginsBlank_iff]

theorem trim_contribution_ne_empty_iff :
    Text.trim (b.contribution source) ≠ "" ↔ b.HasText source :=
  not_congr Text.trim_eq_empty_iff

theorem texts_cons_of_hasText (h : b.HasText source) :
    texts source (b :: blocks) = Text.trim (b.contribution source) :: texts source blocks :=
  List.filter_cons_of_pos (decide_eq_true (trim_contribution_ne_empty_iff.2 h))

theorem texts_cons_of_not_hasText (h : ¬ b.HasText source) :
    texts source (b :: blocks) = texts source blocks :=
  List.filter_cons_of_neg (by simpa using mt trim_contribution_ne_empty_iff.1 h)

theorem isTrimmed_of_mem_texts {t : String} (h : t ∈ texts source blocks) :
    Text.IsTrimmed t ∧ t ≠ "" := by
  obtain ⟨hmem, hne⟩ := List.mem_filter.1 h
  obtain ⟨b, -, rfl⟩ := List.mem_map.1 hmem
  exact ⟨Text.isTrimmed_trim _, of_decide_eq_true hne⟩

theorem texts_eq_nil_iff : texts source blocks = [] ↔ ¬ ∃ b ∈ blocks, b.HasText source := by
  simp only [texts, List.filter_eq_nil_iff, List.forall_mem_map, decide_eq_true_eq,
    trim_contribution_ne_empty_iff, not_exists, not_and]

/-- A block with text goes ahead of others with text, and the gap behind it is white space of theirs
or put there. -/
theorem laidOut_cons {gaps : List String} (hb : b.HasText source)
    (hblocks : ∃ next ∈ blocks, next.HasText source)
    (h : Text.LaidOut (texts source blocks) gaps (Text.trim (addedAll source blocks))) :
    ∃ gap, Text.LaidOut (texts source (b :: blocks)) (gap :: gaps)
        (Text.trim (addedAll source (b :: blocks))) ∧
      (gap ≠ "" ↔ Text.EndsBlank (b.contribution source) ∨ SpaceAhead source blocks) := by
  obtain ⟨gap, hblank, htrim, hgap⟩ := Text.trim_append (mt isBlankText_added.1 (not_not_intro hb))
    (mt isBlankText_addedAll.1 (not_not_intro hblocks))
  obtain ⟨next, more, htexts⟩ :=
    List.exists_cons_of_ne_nil (mt texts_eq_nil_iff.1 (not_not_intro hblocks))
  refine ⟨gap, ?_, ?_⟩
  · rw [htexts] at h
    rw [addedAll_cons, htrim, trim_added, texts_cons_of_hasText hb, htexts]
    exact .cons _ hblank h
  · rw [hgap, endsBlank_added hb, beginsBlank_addedAll]

variable (source blocks) in
/-- **The texts of blocks stand in what they add to an item**, with gaps of white space between
them. -/
theorem exists_laidOut : ∃ gaps,
    Text.LaidOut (texts source blocks) gaps (Text.trim (addedAll source blocks)) ∧
      ("" ∉ gaps ↔ NoneGlued source blocks) := by
  induction blocks with
  | nil =>
    have hnil : Text.trim (addedAll source []) = "" := Text.trim_empty
    rw [hnil]
    exact ⟨[], .nil, fun _ => trivial, fun _ => List.not_mem_nil⟩
  | cons b blocks ih =>
    obtain ⟨gaps, hlaid, hgaps⟩ := ih
    rw [NoneGlued, ← hgaps]
    by_cases hb : b.HasText source
    · by_cases hblocks : ∃ next ∈ blocks, next.HasText source
      · obtain ⟨gap, hcons, hgap⟩ := laidOut_cons hb hblocks hlaid
        refine ⟨gap :: gaps, hcons, ?_⟩
        rw [List.mem_cons, not_or, ← hgap, forall_prop_of_true hb, forall_prop_of_true hblocks,
          ne_comm]
      · have htexts := texts_eq_nil_iff.2 hblocks
        rw [htexts] at hlaid
        generalize Text.trim (addedAll source blocks) = entry at hlaid
        cases hlaid
        refine ⟨[], ?_, by simp [hblocks]⟩
        rw [texts_cons_of_hasText hb, htexts, addedAll_cons,
          Text.trim_append_blank (isBlankText_addedAll.2 hblocks), trim_added]
        exact .single _
    · rw [texts_cons_of_not_hasText hb, addedAll_cons,
        Text.trim_blank_append (isBlankText_added.2 hb)]
      exact ⟨gaps, hlaid, by simp [hb]⟩

theorem spaceAhead_of_standsApart (hblocks : ∃ b ∈ blocks, b.HasText source)
    (h : ∀ b ∈ blocks, b.HasText source → b.standsApart = true) : SpaceAhead source blocks := by
  induction blocks with
  | nil => simp at hblocks
  | cons b blocks ih =>
    obtain ⟨hb, hmore⟩ := List.forall_mem_cons.1 h
    simp only [List.mem_cons, exists_eq_or_imp] at hblocks
    by_cases hblank : Text.IsBlankText (b.contribution source)
    · by_cases hempty : b.contribution source = ""
      · exact .inr (.inr ⟨hempty, ih (hblocks.resolve_left (not_not_intro hblank)) hmore⟩)
      · exact .inr (.inl (hblank.beginsBlank_iff.2 hempty))
    · exact .inl (hb hblank)

/-- Nothing is glued if each block but the first is of a kind with white space put ahead of it. -/
theorem noneGlued_of_standsApart
    (h : ∀ b ∈ blocks.tail, b.HasText source → b.standsApart = true) :
    NoneGlued source blocks := by
  induction blocks with
  | nil => trivial
  | cons b blocks ih =>
    refine ⟨fun _ hblocks => .inr (spaceAhead_of_standsApart hblocks h), ih fun b hb => ?_⟩
    exact h b (List.mem_of_mem_tail hb)

end AddedAll

end ItemBlock

/-! ### The segments of an item -/

/-- The parts of an item between its nested lists, where `ahead` has been read. -/
def ItemContent.segments (ahead : List TextPart) : ItemContent → List (List TextPart)
  | .nil => [ahead]
  | .text part rest => rest.segments (ahead ++ [part])
  | .list _ _ items rest =>
    if items.isEmpty then rest.segments ahead else ahead :: rest.segments []

mutual
/-- What the items of the lists nested in an item hold. -/
def ItemContent.nested : ItemContent → List ItemContent
  | .nil => []
  | .text _ rest => rest.nested
  | .list _ _ items rest => items.contents ++ rest.nested
/-- What the items of a list and of the lists nested in it hold. -/
def ItemList.contents : ItemList → List ItemContent
  | .nil => []
  | .cons _ content rest => content :: content.nested ++ rest.contents
end

section Segments

variable (source : String)

def TextPart.textAll (parts : List TextPart) : String := String.join (parts.map (·.text source))

theorem ItemContent.runs_eq_map_segments (content : ItemContent) (ahead : List TextPart) :
    content.runs source (TextPart.textAll source ahead) =
      (content.segments ahead).map (TextPart.textAll source) := by
  cases content with
  | nil => rfl
  | text part rest =>
    have hahead : TextPart.textAll source ahead ++ part.text source =
        TextPart.textAll source (ahead ++ [part]) := by
      simp [TextPart.textAll]
    rw [runs, segments, hahead, rest.runs_eq_map_segments]
  | list first r items rest =>
    rw [runs, segments]
    split
    · exact rest.runs_eq_map_segments ahead
    · rw [List.map_cons, ← rest.runs_eq_map_segments []]
      rfl

theorem ItemBlock.textAll_parts (b : ItemBlock) :
    TextPart.textAll source b.parts = b.added source := by
  cases b with
  | text nodes => simp [TextPart.textAll, parts, added, contribution, standsApart, TextPart.text,
      Function.comp_def]
  | paragraph r children h => simp [TextPart.textAll, parts, added, contribution, standsApart,
      TagKind.standsApart, TextPart.text]
  | rule r => simp [TextPart.textAll, parts, added, contribution, standsApart, TextPart.text,
      Node.text]
  | kept tag r children h =>
    cases hapart : tag.kind.standsApart <;> simp [TextPart.textAll, parts, added, contribution,
      standsApart, TextPart.text, TagKind.isInline_of_isBlock h, hapart]

theorem ItemBlock.textAll_flatMap_parts (blocks : List ItemBlock) :
    TextPart.textAll source (blocks.flatMap parts) = addedAll source blocks := by
  induction blocks with
  | nil => rfl
  | cons b blocks ih =>
    rw [addedAll_cons, ← ih, ← textAll_parts, List.flatMap_cons, TextPart.textAll, List.map_append,
      String.join_append]
    rfl

end Segments

/-! ### Entries -/

section Entries

variable {source : String} {place : List String → List String}

theorem mem_entry_of_not_isBlankText {run : String} (h : ¬ Text.IsBlankText run) :
    Text.trim run ∈ entry run := by
  rw [entry_of_not_blank h]
  exact List.mem_singleton_self _

/-- Each text of an item that is not blank has an entry. -/
theorem ItemContent.trim_mem_entries (content : ItemContent) {ahead run : String}
    (hrun : run ∈ content.runs source ahead) (h : ¬ Text.IsBlankText run) :
    Text.trim run ∈ content.entries source place ahead := by
  cases content with
  | nil =>
    obtain rfl := List.mem_singleton.1 hrun
    exact mem_entry_of_not_isBlankText h
  | text part rest => exact rest.trim_mem_entries hrun h
  | list first r items rest =>
    rw [runs] at hrun
    rw [entries]
    split
    · next hempty =>
      rw [if_pos hempty] at hrun
      exact rest.trim_mem_entries hrun h
    · next hempty =>
      rw [if_neg hempty] at hrun
      rcases List.mem_cons.1 hrun with rfl | hrest
      · exact List.mem_append_left _ (List.mem_append_left _ (mem_entry_of_not_isBlankText h))
      · exact List.mem_append_right _ (rest.trim_mem_entries hrest h)

mutual
/-- What has an entry in an item of a nested list has one in the item around it. -/
theorem ItemContent.mem_entries_of_mem_nested (hplace : ∀ es, es ⊆ place es)
    (content : ItemContent) {inner : ItemContent} (hinner : inner ∈ content.nested) {e : String}
    (he : e ∈ inner.entries source place "") (ahead : String) :
    e ∈ content.entries source place ahead := by
  cases content with
  | nil => cases hinner
  | text part rest => exact rest.mem_entries_of_mem_nested hplace hinner he _
  | list first r items rest =>
    rw [ItemContent.entries]
    split
    · next hempty =>
      obtain rfl := ItemList.eq_nil_of_isEmpty hempty
      exact rest.mem_entries_of_mem_nested hplace hinner he _
    · rcases List.mem_append.1 hinner with hitems | hrest
      · have hmem := items.mem_entries_of_mem_contents hplace hitems he
        exact List.mem_append_left _ (List.mem_append_right _ hmem)
      · exact List.mem_append_right _ (rest.mem_entries_of_mem_nested hplace hrest he _)
/-- What has an entry in an item has one in the list. -/
theorem ItemList.mem_entries_of_mem_contents (hplace : ∀ es, es ⊆ place es)
    (items : ItemList) {inner : ItemContent} (hinner : inner ∈ items.contents) {e : String}
    (he : e ∈ inner.entries source place "") : e ∈ items.entries source place := by
  cases items with
  | nil => cases hinner
  | cons r content rest =>
    rw [ItemList.entries]
    rcases List.mem_append.1 hinner with hfirst | hrest
    · have hmem : e ∈ content.entries source place "" := by
        rcases List.mem_cons.1 hfirst with rfl | hnested
        · exact he
        · exact content.mem_entries_of_mem_nested hplace hnested he ""
      apply List.mem_append_left
      split
      · exact hplace _ hmem
      · exact hmem
    · exact List.mem_append_right _ (rest.mem_entries_of_mem_contents hplace hrest he)
end

/-- **The blocks of an item have an entry together**, if any of them has text. -/
theorem ItemList.trim_addedAll_mem_entries (hplace : ∀ es, es ⊆ place es) {items : ItemList}
    {content : ItemContent} (hitem : content ∈ items.contents) {blocks : List ItemBlock}
    (hblocks : blocks.flatMap ItemBlock.parts ∈ content.segments [])
    (htext : ∃ b ∈ blocks, b.HasText source) :
    Text.trim (ItemBlock.addedAll source blocks) ∈ items.entries source place := by
  have hruns := content.runs_eq_map_segments source []
  have hrun : ItemBlock.addedAll source blocks ∈ content.runs source "" := by
    rw [← ItemBlock.textAll_flatMap_parts]
    exact hruns ▸ List.mem_map_of_mem hblocks
  have hentry : Text.trim (ItemBlock.addedAll source blocks) ∈ content.entries source place "" :=
    content.trim_mem_entries hrun (mt ItemBlock.isBlankText_addedAll.1 (not_not_intro htext))
  exact items.mem_entries_of_mem_contents hplace hitem hentry

/-- **The blocks of an item in its entry.** Take the blocks between two nested lists of an item, at
any depth of a list at the outermost level, and let one of them have text. Then the list has an
entry that is made of the texts of these blocks, each trimmed and all in order, with gaps of white
space between them and nothing else. There is white space in every gap exactly when no block is
glued to the one behind it: a paragraph, a block quote, a code block or an HTML block has a blank put
ahead of it, and a heading, a table, a thematic break or a run of text has none, so that it stands
apart only by white space that is in the text of one of the blocks. -/
theorem lex_item_blocks {items : ItemList} {first : Option Nat} {r : ByteRange}
    (hread : Readable source (items.node first r).events) {content : ItemContent}
    (hitem : content ∈ items.contents) {blocks : List ItemBlock}
    (hblocks : blocks.flatMap ItemBlock.parts ∈ content.segments [])
    (htext : ∃ b ∈ blocks, b.HasText source) :
    ∃ entries, lex ⟨source, (items.node first r).events⟩ = .ok [.list entries first.isSome] ∧
      ∃ e ∈ entries, ∃ gaps, Text.LaidOut (ItemBlock.texts source blocks) gaps e ∧
        (∀ gaps', Text.LaidOut (ItemBlock.texts source blocks) gaps' e → gaps' = gaps) ∧
        ("" ∉ gaps ↔ ItemBlock.NoneGlued source blocks) := by
  obtain ⟨gaps, hlaid, hgaps⟩ := ItemBlock.exists_laidOut source blocks
  have hplace : ∀ es, es ⊆ placeLast es := fun es => List.subset_append_left es [""]
  refine ⟨_, lex_list_eq hread, _,
    ItemList.trim_addedAll_mem_entries hplace hitem hblocks htext, gaps, hlaid, ?_, hgaps⟩
  intro gaps' hlaid'
  exact hlaid'.gaps_eq (fun t ht => ItemBlock.isTrimmed_of_mem_texts ht) hlaid rfl

end Entries

/-- A list of one item with a heading, a paragraph, a block quote and one more paragraph, and a list
nested behind them. -/
def quotingText : String := "- # h\n  a\n\n  > q\n\n  b\n  - c\n"

def quotingBlocks : List ItemBlock := [
  .kept (.heading 1) ⟨2, 6⟩ [.leaf (.text "h") ⟨4, 5⟩] rfl,
  .paragraph ⟨8, 10⟩ [.leaf (.text "a") ⟨8, 9⟩] rfl,
  .kept (.plain .blockQuote) ⟨13, 17⟩
    [.element (.plain .paragraph) ⟨15, 17⟩ [.leaf (.text "q") ⟨15, 16⟩]] rfl,
  .paragraph ⟨20, 22⟩ [.leaf (.text "b") ⟨20, 21⟩] rfl]

def quotingContent : ItemContent :=
  (quotingBlocks.flatMap ItemBlock.parts).foldr .text
    (.list none ⟨24, 28⟩
      (.cons ⟨24, 28⟩ (.text (.inline (.leaf (.text "c") ⟨26, 27⟩) rfl) .nil) .nil) .nil)

def quotingList : ItemList := .cons ⟨0, 28⟩ quotingContent .nil

theorem lex_item_blocks_of_quoting :
    Readable quotingText (quotingList.node none ⟨0, 28⟩).events ∧
    quotingContent ∈ quotingList.contents ∧
    quotingBlocks.flatMap ItemBlock.parts ∈ quotingContent.segments [] ∧
    (∃ b ∈ quotingBlocks, b.HasText quotingText) ∧
    ∃ entries, lex ⟨quotingText, (quotingList.node none ⟨0, 28⟩).events⟩ =
        .ok [.list entries false] ∧ entries = ["# h\n a > q\n b", "c"] ∧
      ∃ e ∈ entries, ∃ gaps, Text.LaidOut ["# h", "a", "> q", "b"] gaps e ∧ "" ∉ gaps := by
  have hread : Readable quotingText (quotingList.node none ⟨0, 28⟩).events := by decide
  have hitem : quotingContent ∈ quotingList.contents := List.mem_cons_self
  have hblocks : quotingBlocks.flatMap ItemBlock.parts ∈ quotingContent.segments [] :=
    List.mem_cons_self
  have htext : ∃ b ∈ quotingBlocks, b.HasText quotingText :=
    ⟨_, List.mem_cons_self, ItemBlock.trim_contribution_ne_empty_iff.1 (by decide)⟩
  have hapart : ∀ b ∈ quotingBlocks.tail, b.standsApart = true := by decide
  have hglued : ItemBlock.NoneGlued quotingText quotingBlocks :=
    ItemBlock.noneGlued_of_standsApart fun b hb _ => hapart b hb
  obtain ⟨entries, hlex, e, he, gaps, hlaid, -, hgaps⟩ :=
    lex_item_blocks hread hitem hblocks htext
  have hentries : lex ⟨quotingText, (quotingList.node none ⟨0, 28⟩).events⟩ =
      .ok [.list ["# h\n a > q\n b", "c"] false] := rfl
  refine ⟨hread, hitem, hblocks, htext, entries, hlex, ?_, e, he, gaps, hlaid, hgaps.2 hglued⟩
  rw [hlex] at hentries
  simpa using hentries

/-- A heading behind a run of text, and a run of text behind the heading. -/
def headedBlocks : List ItemBlock := [
  .text [⟨.leaf (.text "a") ⟨2, 3⟩, rfl⟩],
  .kept (.heading 1) ⟨6, 10⟩ [.leaf (.text "h") ⟨8, 9⟩] rfl,
  .text [⟨.leaf (.text "b") ⟨12, 13⟩, rfl⟩]]

def headedContent : ItemContent := (headedBlocks.flatMap ItemBlock.parts).foldr .text .nil

def headedList : ItemList := .cons ⟨0, 14⟩ headedContent .nil

/-- The text ahead of the heading runs into it: nothing is between the two in the only entry. -/
theorem lex_heading_behind_text :
    Readable "- a\n  # h\n  b\n" (headedList.node none ⟨0, 14⟩).events ∧
    headedContent ∈ headedList.contents ∧
    headedContent.segments [] = [headedBlocks.flatMap ItemBlock.parts] ∧
    ItemBlock.texts "- a\n  # h\n  b\n" headedBlocks = ["a", "# h", "b"] ∧
    lex ⟨"- a\n  # h\n  b\n", (headedList.node none ⟨0, 14⟩).events⟩ =
      .ok [.list ["a# h\nb"] false] ∧
    ¬ ∃ gaps, Text.LaidOut ["a", "# h", "b"] gaps "a# h\nb" ∧ "" ∉ gaps := by
  have hread : Readable "- a\n  # h\n  b\n" (headedList.node none ⟨0, 14⟩).events := by decide
  have hitem : headedContent ∈ headedList.contents := List.mem_cons_self
  have htexts : ItemBlock.texts "- a\n  # h\n  b\n" headedBlocks = ["a", "# h", "b"] := by
    decide +kernel
  have hlex : lex ⟨"- a\n  # h\n  b\n", (headedList.node none ⟨0, 14⟩).events⟩ =
      .ok [.list ["a# h\nb"] false] := rfl
  refine ⟨hread, hitem, rfl, htexts, hlex, ?_⟩
  rintro ⟨gaps, hlaid, hgaps⟩
  have hglued : Text.LaidOut ["a", "# h", "b"] ["", "\n"] ("a" ++ "" ++ ("# h" ++ "\n" ++ "b")) :=
    .cons "a" (Text.trim_eq_empty_iff.1 rfl)
      (.cons "# h" (Text.trim_eq_empty_iff.1 rfl) (.single "b"))
  have htrimmed : ∀ t ∈ ["a", "# h", "b"], Text.IsTrimmed t ∧ t ≠ "" := by
    rw [← htexts]
    exact fun t ht => ItemBlock.isTrimmed_of_mem_texts ht
  obtain rfl := hglued.gaps_eq htrimmed hlaid (by decide)
  exact hgaps List.mem_cons_self

end MarkdownEdits
