import MarkdownEdits.Proofs.Groups

/-!
# Locality of blocks

The token of a group is the one that the group has when it is lexed alone; of the groups around it
nothing but the end of the one before is looked at, and that for the blank token between the two. A
group without a block of its own is passed through: its token is its source, whatever is inside.
-/

namespace MarkdownEdits

namespace Text

/-! ### Text that is passed through -/

/-- The line feed that is missing at the end of a text. An empty text has no line to end. -/
def missingLineEnd (text : String) : String :=
  if text = "" ∨ text.toList.getLast? = some '\n' then "" else "\n"

/-- The text of a range with its indentation, its last line ended. -/
def passedThrough (source : String) (r : ByteRange) : String :=
  let text := indentation source r.start ++ textOf source r
  text ++ missingLineEnd text

theorem withLineEnd_eq (text : String) : withLineEnd text = text ++ missingLineEnd text := by
  unfold withLineEnd missingLineEnd
  cases hlast : text.toList.getLast? with
  | none =>
    have hempty : text = "" := by
      rw [← String.toList_eq_nil_iff]
      exact List.getLast?_eq_none_iff.1 hlast
    rw [if_pos (by rfl), if_pos (.inl hempty), String.append_empty]
  | some c =>
    have hne : text ≠ "" := by
      rintro rfl
      cases hlast
    by_cases hc : c = '\n'
    · rw [hc, if_pos (by rfl), if_pos (.inr rfl), String.append_empty]
    · have hno : ¬ (text = "" ∨ some c = some '\n') := by
        rintro (h | h)
        · exact hne h
        · exact hc (Option.some.inj h)
      rw [if_neg hno, if_neg (by simpa using hc)]

end Text

/-! ### Groups without a block of their own -/

/-- The elements that have a block of their own. -/
def Tag.hasBlock : Tag → Bool
  | .heading _ | .plain .paragraph | .list _ | .plain .table => true
  | _ => false

theorem OpenBlock.foldl_feed_raw {source : String} (r : ByteRange) (events : List SourceEvent) :
    events.foldl (OpenBlock.feed source) (.raw r) = .raw r := by
  induction events with
  | nil => rfl
  | cons e events ih =>
    obtain ⟨event, r'⟩ := e
    rw [List.foldl_cons]
    cases event <;> exact ih

theorem OpenBlock.ofTag_of_not_hasBlock {tag : Tag} (h : tag.hasBlock = false) (source : String)
    (r : ByteRange) : OpenBlock.ofTag source tag r = (Text.withIndent source r).map .raw := by
  cases tag with
  | heading level => cases h
  | list first => cases h
  | link target => rfl
  | plain kind =>
    cases kind with
    | paragraph => cases h
    | table => cases h
    | _ => rfl

namespace Group

/-- A group other than a heading, a paragraph, a list or a table. -/
def isRaw : Group → Bool
  | .leaf _ _ => true
  | .element tag _ _ _ _ _ => !tag.hasBlock

variable {source : String}

/-- Nothing inside the group has an effect on its block. -/
theorem block_of_isRaw {g : Group} (h : g.isRaw = true) :
    g.block source = (Text.withIndent source g.range).map .raw := by
  cases g with
  | leaf l r => rfl
  | element tag r inside kind stopRange hinside =>
    have htag : tag.hasBlock = false := by simpa [isRaw] using h
    rw [block, OpenBlock.ofTag_of_not_hasBlock htag, range]
    cases Text.withIndent source r with
    | error e => rfl
    | ok r' =>
      show Except.ok (inside.foldl (OpenBlock.feed source) (.raw r')) = .ok (.raw r')
      rw [OpenBlock.foldl_feed_raw]

theorem token_of_isRaw {g : Group} (h : g.isRaw = true) (hread : Readable source g.events) :
    g.token source = .ok (.raw (Text.passedThrough source g.range)) := by
  obtain ⟨r', hr', hslice, -⟩ := Text.slice_withIndent (within_range hread)
  simp only [token, block_of_isRaw h, hr', Except.map, bind, Except.bind, OpenBlock.token, hslice,
    pure, Except.pure, Text.withLineEnd_eq, Text.passedThrough]

end Group

/-- **The blocks of a document are lexed apart.** The tokens of a sequence of groups are, group by
group, a blank token or none, which the source, the end of the group before and the start of this one
decide, and one token, which is the one that the group has alone. A group other than a heading, a
paragraph, a list or a table has its source as its token, with its indentation and a line feed at
the end, whatever is inside. -/
theorem lex_groups {source : String} {groups : List Group} (horder : Group.InOrder groups)
    (hread : ∀ g ∈ groups, Readable source g.events) :
    ∃ placed : List (Group × BlockToken), placed.map Prod.fst = groups ∧
      (∀ p ∈ placed, lex ⟨source, p.1.events⟩ = .ok [p.2] ∧ p.2 ≠ .blank ∧
        (p.1.isRaw = true → p.2 = .raw (Text.passedThrough source p.1.range))) ∧
      lex ⟨source, groups.flatMap Group.events⟩ =
        .ok (Group.layout (Text.hasTwoLineFeeds source) none placed) := by
  obtain ⟨placed, hplaced, htokens, hlex⟩ := Group.lex_flatMap_events horder hread
  refine ⟨placed, hplaced, fun p hp => ?_, hlex⟩
  obtain ⟨halone, hne⟩ := htokens p hp
  refine ⟨halone, hne, fun hraw => ?_⟩
  have hp' : p.1 ∈ groups := by
    rw [← hplaced]
    exact List.mem_map_of_mem hp
  have htoken := Group.lex_events (hread p.1 hp') (Group.token_of_isRaw hraw (hread p.1 hp'))
  rw [halone] at htoken
  exact (List.cons.inj (Except.ok.inj htoken)).1

/-- The groups of `"- a\n\n> # b\n\n    c\n---\n"`: a list, a quoted heading, indented code, whose
range begins behind its indentation, and a rule. -/
def mixedGroups : List Group := [
  .element (.list none) ⟨0, 4⟩
    [⟨.start (.plain .item), ⟨0, 4⟩⟩, ⟨.leaf (.text "a"), ⟨2, 3⟩⟩, ⟨.stop .item, ⟨0, 4⟩⟩]
    .list ⟨0, 4⟩ rfl,
  .element (.plain .blockQuote) ⟨5, 11⟩
    [⟨.start (.heading 1), ⟨7, 11⟩⟩, ⟨.leaf (.text "b"), ⟨9, 10⟩⟩, ⟨.stop .heading, ⟨7, 11⟩⟩]
    .blockQuote ⟨5, 11⟩ rfl,
  .element (.plain .codeBlock) ⟨16, 18⟩ [⟨.leaf (.text "c\n"), ⟨16, 18⟩⟩] .codeBlock ⟨16, 18⟩ rfl,
  .leaf .other ⟨18, 22⟩]

theorem lex_groups_of_mixed :
    Group.InOrder mixedGroups ∧
    (∀ g ∈ mixedGroups, Readable "- a\n\n> # b\n\n    c\n---\n" g.events) ∧
    ∃ placed, placed.map Prod.fst = mixedGroups ∧
      (∀ p ∈ placed, p.1.isRaw = true →
        p.2 = .raw (Text.passedThrough "- a\n\n> # b\n\n    c\n---\n" p.1.range)) ∧
      Group.layout (Text.hasTwoLineFeeds "- a\n\n> # b\n\n    c\n---\n") none placed =
        [.list ["a"] false, .blank, .raw "> # b
", .blank, .raw "    c
", .raw "---
"] := by
  have horder : Group.InOrder mixedGroups := by decide
  have hread : ∀ g ∈ mixedGroups, Readable "- a\n\n> # b\n\n    c\n---\n" g.events := by decide
  obtain ⟨placed, hplaced, htokens, hlex⟩ := lex_groups horder hread
  refine ⟨horder, hread, placed, hplaced, fun p hp => (htokens p hp).2.2, ?_⟩
  exact (Except.ok.inj hlex).symm

end MarkdownEdits
