import Mathlib.Data.List.Chain
import MarkdownEdits.Proofs.InlineRun
import MarkdownEdits.Proofs.Sequencing
import MarkdownEdits.Proofs.Trimming

/-!
# Tokens in normal form

Whatever events a block is made of, balanced or not, its token is in normal form: texts are trimmed,
a paragraph has its inline run, with no two texts side by side, and a text that is passed through
ends its line. Each way to change a block keeps what its token needs.
-/

namespace MarkdownEdits

/-! ### Runs in normal form -/

namespace InlineToken

/-- No two texts stand side by side. -/
def Merged (tokens : List InlineToken) : Prop :=
  tokens.IsChain fun t u => ¬ (t.isText = true ∧ u.isText = true)

theorem merged_nil : Merged [] := List.isChain_nil

theorem Merged.append_of_not_isText {tokens : List InlineToken} {token : InlineToken}
    (h : Merged tokens) (htoken : token.isText = false) : Merged (tokens ++ [token]) := by
  refine List.isChain_append.2 ⟨h, List.isChain_singleton token, ?_⟩
  rintro t - u hu ⟨-, hisText⟩
  obtain rfl : token = u := by simpa using hu
  rw [htoken] at hisText
  cases hisText

/-- A text that is added leaves the kind of the first token as it is. -/
theorem isText_head_appendText (text : String) (token : InlineToken) (rest : List InlineToken) :
    ∀ t ∈ (appendText text (token :: rest)).head?, t.isText = token.isText := by
  intro t ht
  unfold appendText at ht
  split at ht
  · next heq => cases heq
  · next last heq =>
    obtain ⟨rfl, -⟩ := List.cons.inj heq
    obtain rfl := Option.some.inj ht
    rfl
  · next token' rest' heq =>
    obtain ⟨rfl, -⟩ := List.cons.inj heq
    obtain rfl := Option.some.inj ht
    rfl

theorem Merged.appendText {tokens : List InlineToken} (h : Merged tokens) (text : String) :
    Merged (appendText text tokens) := by
  fun_induction InlineToken.appendText text tokens with
  | case1 => exact List.isChain_singleton _
  | case2 last => exact List.isChain_singleton _
  | case3 token rest hlast ih =>
    obtain ⟨hfirst, hrest⟩ := List.isChain_cons.1 h
    refine List.isChain_cons.2 ⟨?_, ih hrest⟩
    cases rest with
    | nil =>
      -- the text becomes a token of its own, since the one ahead of it is no text
      rintro t - ⟨htoken, -⟩
      cases token with
      | text last => exact hlast last rfl rfl
      | _ => cases htoken
    | cons next rest =>
      intro t ht
      rw [isText_head_appendText text next rest t ht]
      exact hfirst next rfl

end InlineToken

theorem OpenSpan.isText_token (s : OpenSpan) : s.token.isText = false := by
  obtain ⟨kind, text, depth⟩ := s
  cases kind <;> rfl

namespace InlineBuilder

variable {b : InlineBuilder}

open InlineToken (Merged)

theorem merged_pushText (h : Merged b.tokens) (text : String) :
    Merged (b.pushText text).tokens := by
  unfold pushText
  split
  · exact h
  · exact h.appendText text

theorem merged_pushSource (h : Merged b.tokens) (inner source : String) :
    Merged (b.pushSource inner source).tokens := by
  unfold pushSource
  split
  · exact h
  · exact h.append_of_not_isText rfl

theorem merged_start (h : Merged b.tokens) (tag : Tag) (source : String) :
    Merged (b.start tag source).tokens := by
  unfold start
  split
  · exact h
  · split
    · exact h
    · split
      · exact h
      · exact h.append_of_not_isText rfl

theorem merged_stop (h : Merged b.tokens) : Merged b.stop.tokens := by
  unfold stop
  split
  · exact h
  · split
    · next s _ =>
      split
      · exact h.append_of_not_isText (OpenSpan.isText_token s)
      · exact h
    · exact h

theorem merged_leaf (h : Merged b.tokens) (l : Leaf) (source : String) :
    Merged (b.leaf l source).tokens := by
  unfold leaf
  split
  · exact h
  · split
    · exact merged_pushText h _
    · exact merged_pushText h _
    · exact merged_pushSource h _ _
    · exact merged_pushSource h _ _
    · exact merged_pushSource h _ _

theorem merged_finish (h : Merged b.tokens) : Merged b.finish := by
  unfold finish
  cases b.span with
  | none => simpa using h
  | some s => exact h.append_of_not_isText (OpenSpan.isText_token s)

end InlineBuilder

/-! ### Tokens in normal form -/

namespace Text

/-- A text that is empty or ends its line. -/
def EndsLine (s : String) : Prop := s = "" ∨ s.toList.getLast? = some '\n'

theorem endsLine_withLineEnd (s : String) : EndsLine (withLineEnd s) := by
  unfold withLineEnd
  split
  · next h =>
    cases hlast : s.toList.getLast? with
    | none => exact .inl (String.toList_eq_nil_iff.1 (List.getLast?_eq_none_iff.1 hlast))
    | some c =>
      rw [hlast] at h
      obtain rfl : c = '\n' := by simpa using h
      exact .inr hlast
  · refine .inr ?_
    rw [String.toList_append]
    exact List.getLast?_concat

theorem ne_of_mem_getLast?_trimLineBreaks {s : String} :
    ∀ c ∈ (trimLineBreaks s).toList.getLast?, c ≠ '\n' ∧ c ≠ '\r' := by
  intro c hc
  rw [trimLineBreaks, String.toList_ofList] at hc
  have h := eq_false_of_mem_getLast?_dropEndWhile hc
  simpa [isLineBreak] using h

end Text

/-- The normal form of a token. -/
def BlockToken.IsNormal : BlockToken → Prop
  | .heading text _ => Text.IsTrimmed text
  | .paragraph text inline =>
    (∀ c ∈ text.toList.getLast?, c ≠ '\n' ∧ c ≠ '\r') ∧
      ∃ run, inline = some run ∧ InlineToken.Merged run
  | .list items _ => ∀ item ∈ items, Text.IsTrimmed item
  | .table header rows =>
    (∀ cell ∈ header, Text.IsTrimmed cell) ∧ ∀ row ∈ rows, ∀ cell ∈ row, Text.IsTrimmed cell
  | .blank => True
  | .raw text => Text.EndsLine text

/-! ### Blocks on the way to it -/

/-- The entries that have been written out are trimmed. -/
def ListBuilder.IsNormal (b : ListBuilder) : Prop := ∀ item ∈ b.items, Text.IsTrimmed item

namespace ListBuilder

variable {b : ListBuilder}

theorem IsNormal.mapInline (h : b.IsNormal) (f : InlineBuilder → InlineBuilder) :
    (b.mapInline f).IsNormal := by
  unfold ListBuilder.mapInline
  split <;> exact h

/-- Text is trimmed before it is written out. -/
theorem IsNormal.write (h : b.IsNormal) (text : String) (openItems : List OpenItem) :
    IsNormal { b with items := b.items ++ [Text.trim text], openItems := openItems } := by
  intro item hitem
  obtain hitem | hitem := List.mem_append.1 hitem
  · exact h item hitem
  · rw [List.mem_singleton.1 hitem]
    exact Text.isTrimmed_trim text

theorem IsNormal.startItem (h : b.IsNormal) : b.startItem.IsNormal := by
  unfold ListBuilder.startItem
  split
  · exact h
  · dsimp only
    split
    · exact h
    · exact h.write _ _

theorem IsNormal.stopItem (h : b.IsNormal) : b.stopItem.IsNormal := by
  unfold ListBuilder.stopItem
  split
  · exact h
  · dsimp only
    split
    · exact h
    · exact h.write _ _

theorem IsNormal.start (h : b.IsNormal) (tag : Tag) (source : String) :
    (b.start tag source).IsNormal := by
  unfold ListBuilder.start
  split
  · exact h.mapInline _
  · split
    · exact h.startItem
    · exact h
    all_goals exact h.mapInline _

theorem IsNormal.stop (h : b.IsNormal) (kind : TagKind) : (b.stop kind).IsNormal := by
  unfold ListBuilder.stop
  split
  · exact h.mapInline _
  · split
    · exact h.stopItem
    · exact h
    · exact h
    · exact h.mapInline _

end ListBuilder

/-- The cells that have been read are trimmed. -/
structure TableBuilder.IsNormal (b : TableBuilder) : Prop where
  header : ∀ cell ∈ b.header, Text.IsTrimmed cell
  rows : ∀ row ∈ b.rows, ∀ cell ∈ row, Text.IsTrimmed cell
  row : ∀ cell ∈ b.row, Text.IsTrimmed cell

namespace TableBuilder

variable {b : TableBuilder}

theorem IsNormal.withCell (h : b.IsNormal) (cell : Option InlineBuilder) :
    IsNormal { b with cell := cell } := ⟨h.header, h.rows, h.row⟩

theorem IsNormal.start (h : b.IsNormal) (tag : Tag) (source : String) :
    (b.start tag source).IsNormal := by
  unfold TableBuilder.start
  split
  · exact h
  · exact h
  · exact h.withCell _
  · exact h.withCell _

theorem IsNormal.stop (h : b.IsNormal) (kind : TagKind) : (b.stop kind).IsNormal := by
  unfold TableBuilder.stop
  split
  · exact ⟨h.row, h.rows, List.forall_mem_nil _⟩
  · refine ⟨h.header, ?_, List.forall_mem_nil _⟩
    intro row hrow
    obtain hrow | hrow := List.mem_append.1 hrow
    · exact h.rows row hrow
    · rw [List.mem_singleton.1 hrow]
      exact h.row
  · split
    · refine ⟨h.header, h.rows, ?_⟩
      intro cell hcell
      obtain hcell | hcell := List.mem_append.1 hcell
      · exact h.row cell hcell
      · rw [List.mem_singleton.1 hcell]
        exact Text.isTrimmed_trim _
    · exact h
  · exact h.withCell _

end TableBuilder

/-- What a block needs for its token to be in normal form. -/
def OpenBlock.IsNormal : OpenBlock → Prop
  | .paragraph _ inline => InlineToken.Merged inline.tokens
  | .list items => items.IsNormal
  | .table cells => cells.IsNormal
  | .heading _ _ | .raw _ => True

namespace OpenBlock

variable {source : String} {b : OpenBlock}

theorem isNormal_ofTag {tag : Tag} {r : ByteRange} (h : ofTag source tag r = .ok b) :
    b.IsNormal := by
  unfold ofTag at h
  split at h
  · cases h
    trivial
  · cases h
    exact InlineToken.merged_nil
  · cases h
    exact List.forall_mem_nil _
  · cases h
    exact ⟨List.forall_mem_nil _, List.forall_mem_nil _, List.forall_mem_nil _⟩
  · cases hindent : Text.withIndent source r with
    | error e => rw [hindent] at h; cases h
    | ok r' =>
      rw [hindent] at h
      cases h
      trivial

/-- **An event inside a block keeps its normal form**, whatever the event is. -/
theorem IsNormal.feed (h : b.IsNormal) (e : SourceEvent) : (b.feed source e).IsNormal := by
  obtain ⟨event, r⟩ := e
  cases b with
  | heading depth inline => cases event <;> trivial
  | raw r => cases event <;> trivial
  | paragraph r inline =>
    cases event with
    | start tag => exact InlineBuilder.merged_start h tag _
    | stop kind => exact InlineBuilder.merged_stop h
    | leaf l => exact InlineBuilder.merged_leaf h l _
  | list items =>
    cases event with
    | start tag => exact ListBuilder.IsNormal.start h tag _
    | stop kind => exact ListBuilder.IsNormal.stop h kind
    | leaf l => exact ListBuilder.IsNormal.mapInline h _
  | table cells =>
    cases event with
    | start tag => exact TableBuilder.IsNormal.start h tag _
    | stop kind => exact TableBuilder.IsNormal.stop h kind
    | leaf l => exact TableBuilder.IsNormal.withCell h _

/-- The token of a block is in normal form. -/
theorem IsNormal.token (h : b.IsNormal) {token : BlockToken} (htoken : b.token source = .ok token) :
    token.IsNormal := by
  cases b with
  | heading depth inline =>
    cases htoken
    exact Text.isTrimmed_trim _
  | list items =>
    cases htoken
    exact h
  | table cells =>
    cases htoken
    exact ⟨h.header, h.rows⟩
  | paragraph r inline =>
    obtain ⟨text, -, htext⟩ := Except.bind_eq_ok_iff.1 htoken
    cases htext
    exact ⟨Text.ne_of_mem_getLast?_trimLineBreaks, _, rfl, InlineBuilder.merged_finish h⟩
  | raw r =>
    obtain ⟨text, -, htext⟩ := Except.bind_eq_ok_iff.1 htoken
    cases htext
    exact Text.endsLine_withLineEnd text

end OpenBlock

end MarkdownEdits
