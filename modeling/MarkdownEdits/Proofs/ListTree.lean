import MarkdownEdits.Proofs.InlineForest
import MarkdownEdits.Proofs.Trimming

/-!
# List trees

A list is a tree: its items hold text and further lists. Flattening a list reads the tree in order,
an item ahead of the items inside it, and gives the text of an item where it stands.
-/

namespace MarkdownEdits

/-! ### Trees -/

/-- The elements that stand in the text of an item without a blank ahead of them. -/
def TagKind.isInline : TagKind → Bool
  | .item | .list | .paragraph | .blockQuote | .codeBlock | .htmlBlock => false
  | _ => true

mutual
/-- A node that holds inline elements only. -/
def Node.isInline : Node → Bool
  | .leaf _ _ => true
  | .element tag _ children => tag.kind.isInline && Node.allInline children
def Node.allInline : List Node → Bool
  | [] => true
  | n :: ns => n.isInline && Node.allInline ns
end

/-- The elements that an item keeps as their source, whatever is inside them. -/
def Tag.isKept (tag : Tag) : Bool :=
  tag.spanKind?.isNone &&
    match tag.kind with
    | .item | .list | .paragraph => false
    | _ => true

/-- A part of an item that adds to its text. -/
inductive TextPart
  | inline (node : Node) (isInline : node.isInline = true)
  | kept (tag : Tag) (range : ByteRange) (children : List Node) (isKept : tag.isKept = true)
  | paragraph (range : ByteRange) (children : List Node) (allInline : Node.allInline children = true)

def TextPart.node : TextPart → Node
  | .inline n _ => n
  | .kept tag r children _ => .element tag r children
  | .paragraph r children _ => .element (.plain .paragraph) r children

mutual
/-- What an item holds. -/
inductive ItemContent
  | nil
  | text (part : TextPart) (rest : ItemContent)
  | list (first : Option Nat) (range : ByteRange) (items : ItemList) (rest : ItemContent)
/-- The items of a list. -/
inductive ItemList
  | nil
  | cons (range : ByteRange) (content : ItemContent) (rest : ItemList)
end

mutual
def ItemContent.nodes : ItemContent → List Node
  | .nil => []
  | .text part rest => part.node :: rest.nodes
  | .list first r items rest => .element (.list first) r items.nodes :: rest.nodes
def ItemList.nodes : ItemList → List Node
  | .nil => []
  | .cons r content rest => .element (.plain .item) r content.nodes :: rest.nodes
end

/-- A list whose items are `items`. -/
def ItemList.node (items : ItemList) (first : Option Nat) (range : ByteRange) : Node :=
  .element (.list first) range items.nodes

def ItemList.isEmpty : ItemList → Bool
  | .nil => true
  | .cons .. => false

theorem ItemList.eq_nil_of_isEmpty {items : ItemList} (h : items.isEmpty = true) : items = .nil := by
  cases items with
  | nil => rfl
  | cons => cases h

/-! ### Texts -/

section Texts

variable (source : String)

/-- The text that a part adds. A blank goes between a block or a paragraph and what is ahead of
it. -/
def TextPart.text : TextPart → String
  | .inline n _ => n.text source
  | .kept tag r _ _ => (if tag.kind.isInline then "" else " ") ++ Text.textOf source r
  | .paragraph _ children _ => " " ++ Node.textAll source children

/-- The text of an item without the lists nested in it. -/
def ItemContent.ownText : ItemContent → String
  | .nil => ""
  | .text part rest => part.text source ++ rest.ownText
  | .list _ _ _ rest => rest.ownText

/-- The texts of an item that its nested lists separate, where `run` has been read. A nested list
without items separates nothing. -/
def ItemContent.runs (run : String) : ItemContent → List String
  | .nil => [run]
  | .text part rest => rest.runs (run ++ part.text source)
  | .list _ _ items rest => if items.isEmpty then rest.runs run else run :: rest.runs ""

/-- The entry of a text, if it is not blank. -/
def entry (run : String) : List String :=
  if Text.trim run = "" then [] else [Text.trim run]

mutual
/-- The entries of an item that has text, where `run` has been read: those of its texts, and those
of its nested lists between them. -/
def ItemContent.entries (place : List String → List String) (run : String) :
    ItemContent → List String
  | .nil => entry run
  | .text part rest => rest.entries place (run ++ part.text source)
  | .list _ _ items rest =>
    if items.isEmpty then rest.entries place run
    else entry run ++ items.entries place ++ rest.entries place ""
/-- **The entries of a list.** An item without text has one empty entry, and `place` puts it among
the entries of the lists nested in the item. -/
def ItemList.entries (place : List String → List String) : ItemList → List String
  | .nil => []
  | .cons _ content rest =>
    (if Text.trim (content.ownText source) = "" then place (content.entries place "")
      else content.entries place "") ++ rest.entries place
end

mutual
/-- One entry for each item of the nested lists. -/
def ItemContent.preorder : ItemContent → List String
  | .nil => []
  | .text _ rest => rest.preorder
  | .list _ _ items rest => items.preorder ++ rest.preorder
/-- One entry for each item of a list and of the lists nested in it, an item ahead of those inside
it. -/
def ItemList.preorder : ItemList → List String
  | .nil => []
  | .cons _ content rest => Text.trim (content.ownText source) :: content.preorder ++ rest.preorder
end

/-- All text of the item stands ahead of its nested lists, and there is text if there are lists. -/
def ItemContent.TextLeads (content : ItemContent) : Prop :=
  ∃ lead more, content.runs source "" = lead :: more ∧ (∀ run ∈ more, Text.IsBlankText run) ∧
    (more ≠ [] → ¬ Text.IsBlankText lead)

mutual
/-- The text leads in each item of the nested lists. -/
def ItemContent.AllLead : ItemContent → Prop
  | .nil => True
  | .text _ rest => rest.AllLead
  | .list _ _ items rest => items.AllLead ∧ rest.AllLead
/-- The text leads in each item. -/
def ItemList.AllLead : ItemList → Prop
  | .nil => True
  | .cons _ content rest => content.TextLeads source ∧ content.AllLead ∧ rest.AllLead
end

end Texts

/-! ### Lists whose text leads -/

section Lead

variable {source : String}

theorem ItemContent.runs_ne_nil (content : ItemContent) (run : String) :
    content.runs source run ≠ [] := by
  cases content with
  | nil => exact List.cons_ne_nil _ _
  | text part rest => exact rest.runs_ne_nil _
  | list first r items rest =>
    rw [runs]
    split
    · exact rest.runs_ne_nil _
    · exact List.cons_ne_nil _ _

theorem ItemContent.exists_runs_eq_cons (content : ItemContent) (source run : String) :
    ∃ lead more, content.runs source run = lead :: more :=
  List.exists_cons_of_ne_nil (content.runs_ne_nil run)

/-- An item of one text has no nested items. -/
theorem ItemContent.preorder_eq_nil (content : ItemContent) {run lead : String}
    (h : content.runs source run = [lead]) : content.preorder source = [] := by
  cases content with
  | nil => rfl
  | text part rest => exact rest.preorder_eq_nil h
  | list first r items rest =>
    rw [runs] at h
    split at h
    · next hempty =>
      obtain rfl := ItemList.eq_nil_of_isEmpty hempty
      exact rest.preorder_eq_nil h
    · exact absurd (List.cons.inj h).2 (rest.runs_ne_nil _)

/-- The text of an item is that of its first run, if the others are blank. -/
theorem ItemContent.trim_ownText (content : ItemContent) {run lead : String} {more : List String}
    (h : content.runs source run = lead :: more) (hmore : ∀ run ∈ more, Text.IsBlankText run) :
    Text.trim (run ++ content.ownText source) = Text.trim lead := by
  cases content with
  | nil =>
    obtain ⟨rfl, -⟩ := List.cons.inj h
    rw [ownText, String.append_empty]
  | text part rest =>
    rw [ownText, ← String.append_assoc]
    exact rest.trim_ownText h hmore
  | list first r items rest =>
    rw [ownText]
    rw [runs] at h
    split at h
    · exact rest.trim_ownText h hmore
    · obtain ⟨rfl, rfl⟩ := List.cons.inj h
      obtain ⟨next, others, hruns⟩ := rest.exists_runs_eq_cons source ""
      rw [hruns] at hmore
      obtain ⟨hnext, hothers⟩ := List.forall_mem_cons.1 hmore
      have hrest := rest.trim_ownText hruns hothers
      rw [String.empty_append, Text.trim_eq_empty_iff.2 hnext, Text.trim_eq_empty_iff] at hrest
      exact Text.trim_append_blank hrest

theorem entry_of_blank {run : String} (h : Text.IsBlankText run) : entry run = [] :=
  if_pos (Text.trim_eq_empty_iff.2 h)

theorem entry_of_not_blank {run : String} (h : ¬ Text.IsBlankText run) :
    entry run = [Text.trim run] :=
  if_neg fun h' => h (Text.trim_eq_empty_iff.1 h')

mutual
/-- The text of an item and the entries of its nested lists, where the text stands ahead of them. -/
theorem ItemContent.entries_eq_preorder (content : ItemContent)
    {place : List String → List String} (hplace : place [] = [""]) (hlead : content.AllLead source)
    {run lead : String} {more : List String} (h : content.runs source run = lead :: more)
    (hmore : ∀ run ∈ more, Text.IsBlankText run) :
    content.entries source place run = entry lead ++ content.preorder source := by
  cases content with
  | nil =>
    obtain ⟨rfl, -⟩ := List.cons.inj h
    rw [ItemContent.entries, ItemContent.preorder, List.append_nil]
  | text part rest => exact rest.entries_eq_preorder hplace hlead h hmore
  | list first r items rest =>
    obtain ⟨hitems, hrest⟩ := hlead
    rw [ItemContent.runs] at h
    rw [ItemContent.entries, ItemContent.preorder]
    split at h
    · next hempty =>
      obtain rfl := ItemList.eq_nil_of_isEmpty hempty
      exact rest.entries_eq_preorder hplace hrest h hmore
    · next hempty =>
      obtain ⟨rfl, rfl⟩ := List.cons.inj h
      obtain ⟨next, others, hruns⟩ := rest.exists_runs_eq_cons source ""
      rw [hruns] at hmore
      obtain ⟨hnext, hothers⟩ := List.forall_mem_cons.1 hmore
      rw [if_neg hempty, items.entries_eq_preorder hplace hitems,
        rest.entries_eq_preorder hplace hrest hruns hothers, entry_of_blank hnext, List.nil_append,
        List.append_assoc]
/-- **Where text leads, a list has one entry for each item**, ahead of the items inside it. -/
theorem ItemList.entries_eq_preorder (items : ItemList) {place : List String → List String}
    (hplace : place [] = [""]) (hlead : items.AllLead source) :
    items.entries source place = items.preorder source := by
  cases items with
  | nil => rfl
  | cons r content rest =>
    obtain ⟨⟨lead, more, hruns, hmore, hnested⟩, hcontent, hrest⟩ := hlead
    have hown := content.trim_ownText hruns hmore
    rw [String.empty_append] at hown
    have hentries := content.entries_eq_preorder hplace hcontent hruns hmore
    rw [ItemList.entries, ItemList.preorder, rest.entries_eq_preorder hplace hrest, hown, hentries]
    by_cases hblank : Text.IsBlankText lead
    · -- an item without text has no nested items either, so that its entry is all there is
      have hnil : more = [] := Classical.byContradiction fun hne => hnested hne hblank
      rw [hnil] at hruns
      rw [content.preorder_eq_nil hruns, entry_of_blank hblank, Text.trim_eq_empty_iff.2 hblank,
        if_pos rfl, List.append_nil, hplace]
    · rw [entry_of_not_blank hblank, if_neg fun h => hblank (Text.trim_eq_empty_iff.1 h)]
      rfl
end

end Lead

end MarkdownEdits
