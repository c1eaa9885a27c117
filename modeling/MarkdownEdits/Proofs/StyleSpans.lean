import Mathlib.Data.List.Forall2
import MarkdownEdits.Paragraph

/-!
# The spans of a composed text

A run of inline tokens is composed to one text, and its spans name parts of that text by UTF-16
units. Each span cuts the text of its own token out of the whole, so that no span holds half a
surrogate pair. What carries the proof is that the text of a token *stands at* its range: the units
ahead of it are those of the tokens ahead of it.
-/

namespace MarkdownEdits

namespace Text

/-! ### Units of a text -/

def isHighSurrogate (u : UInt16) : Bool := 0xD800 ≤ u.toNat && u.toNat < 0xDC00

def isLowSurrogate (u : UInt16) : Bool := 0xDC00 ≤ u.toNat && u.toNat < 0xE000

/-- Position `n` falls between the two units of a surrogate pair. -/
def SplitsPair (units : List UInt16) (n : Nat) : Prop :=
  ∃ before high low after, units = before ++ high :: low :: after ∧ before.length + 1 = n ∧
    isHighSurrogate high = true ∧ isLowSurrogate low = true

/-- The units in a range. -/
def cut (units : List UInt16) (r : TextRange) : List UInt16 :=
  (units.drop r.start).take (r.stop - r.start)

/-- No character begins with the second unit of a pair. -/
theorem isLowSurrogate_head_charUnits (c : Char) {u : UInt16} (h : u ∈ (charUnits c).head?) :
    isLowSurrogate u = false := by
  have hvalid : c.toNat < 0xD800 ∨ 0xDFFF < c.toNat ∧ c.toNat < 0x110000 := c.valid
  unfold charUnits at h
  rw [isLowSurrogate, Bool.and_eq_false_iff, decide_eq_false_iff_not, decide_eq_false_iff_not]
  split at h
  · next hplane =>
    obtain rfl := Option.some.inj h
    have hunit : c.toNat.toUInt16.toNat = c.toNat :=
      UInt16.toNat_ofNat_of_lt' (by simpa [UInt16.size] using hplane)
    rw [hunit]
    omega
  · next hplane =>
    obtain rfl := Option.some.inj h
    have hunit : (0xD800 + (c.toNat - 0x10000) / 0x400).toUInt16.toNat =
        0xD800 + (c.toNat - 0x10000) / 0x400 :=
      UInt16.toNat_ofNat_of_lt' (by simp only [UInt16.size]; omega)
    rw [hunit]
    omega

theorem isLowSurrogate_head_utf16 (s : String) {u : UInt16} (h : u ∈ (utf16 s).head?) :
    isLowSurrogate u = false := by
  rw [utf16] at h
  cases hs : s.toList with
  | nil =>
    rw [hs] at h
    cases h
  | cons c cs =>
    rw [hs, List.flatMap_cons, List.head?_append_of_ne_nil _ (charUnits_ne_nil c)] at h
    exact isLowSurrogate_head_charUnits c h

/-- **Where a text ends and another begins no pair is split.** -/
theorem not_splitsPair (s t : String) : ¬ SplitsPair (utf16 (s ++ t)) (utf16Length s) := by
  rintro ⟨before, high, low, after, hunits, hlength, -, hlow⟩
  have hsplit : utf16 s ++ utf16 t = (before ++ [high]) ++ low :: after := by
    rw [← utf16_append, hunits, List.append_assoc, List.singleton_append]
  have hlengths : (utf16 s).length = (before ++ [high]).length := by
    rw [List.length_append, List.length_singleton, hlength, utf16Length]
  obtain ⟨-, ht⟩ := List.append_inj hsplit hlengths
  have hfalse : isLowSurrogate low = false := isLowSurrogate_head_utf16 t (by rw [ht]; rfl)
  rw [hlow] at hfalse
  cases hfalse

/-! ### Parts of a text -/

/-- `part` stands in `text` at the units of `r`. -/
def StandsAt (text part : String) (r : TextRange) : Prop :=
  ∃ front back, text = front ++ part ++ back ∧ r = .ofLength (utf16Length front) (utf16Length part)

section StandsAt

variable {text part : String} {r : TextRange}

theorem StandsAt.cut_eq (h : StandsAt text part r) : cut (utf16 text) r = utf16 part := by
  obtain ⟨front, back, rfl, rfl⟩ := h
  have hdrop : (utf16 (front ++ part ++ back)).drop (utf16Length front) =
      utf16 part ++ utf16 back := by
    rw [utf16_append, utf16_append, List.append_assoc]
    exact List.drop_left
  rw [cut, TextRange.start_ofLength, TextRange.stop_ofLength, Nat.add_sub_cancel_left, hdrop]
  exact List.take_left

theorem StandsAt.start_lt_stop (h : StandsAt text part r) (hpart : part ≠ "") :
    r.start < r.stop := by
  obtain ⟨front, back, -, rfl⟩ := h
  have hlength : utf16Length part ≠ 0 := fun h => hpart (utf16Length_eq_zero_iff.1 h)
  rw [TextRange.start_ofLength, TextRange.stop_ofLength]
  omega

theorem StandsAt.stop_le (h : StandsAt text part r) : r.stop ≤ utf16Length text := by
  obtain ⟨front, back, rfl, rfl⟩ := h
  rw [TextRange.stop_ofLength, utf16Length_append, utf16Length_append]
  omega

theorem StandsAt.not_splitsPair_start (h : StandsAt text part r) :
    ¬ SplitsPair (utf16 text) r.start := by
  obtain ⟨front, back, rfl, rfl⟩ := h
  rw [String.append_assoc]
  exact not_splitsPair front (part ++ back)

theorem StandsAt.not_splitsPair_stop (h : StandsAt text part r) :
    ¬ SplitsPair (utf16 text) r.stop := by
  obtain ⟨front, back, rfl, rfl⟩ := h
  rw [TextRange.stop_ofLength, ← utf16Length_append]
  exact not_splitsPair (front ++ part) back

end StandsAt

end Text

open Text

/-! ### Spans and tokens -/

/-- A strong, emphasised or linked token with text. -/
def InlineToken.isStyled : InlineToken → Bool
  | .strong t | .emphasis t | .link t _ => t != ""
  | .text _ | .other _ => false

/-- The style that each kind of token is given. -/
inductive InlineToken.HasStyle : InlineToken → TextStyle → Prop
  | strong (t : String) : HasStyle (.strong t) .bold
  | emphasis (t : String) : HasStyle (.emphasis t) .italic
  | link (t target : String) : HasStyle (.link t target) (.link target)

/-- The span of a token that has a style depends on its text. -/
theorem InlineToken.span?_of_hasStyle {token : InlineToken} {style : TextStyle}
    (hstyled : token.isStyled = (token.rendered != "")) (hstyle : token.style? = some style)
    (offset : Nat) :
    token.isStyled = true ∧ token.span? offset =
        some ⟨style, .ofLength offset (utf16Length token.rendered)⟩ ∨
      token.isStyled = false ∧ token.span? offset = none := by
  by_cases ht : token.rendered = ""
  · exact .inr ⟨by rw [hstyled, ht]; rfl, if_pos (utf16Length_eq_zero_iff.2 ht)⟩
  · have hlength : utf16Length token.rendered ≠ 0 := fun h => ht (utf16Length_eq_zero_iff.1 h)
    refine .inl ⟨by rw [hstyled]; exact bne_iff_ne.2 ht, ?_⟩
    rw [span?, if_neg hlength, hstyle]
    rfl

/-- A styled token has a span, and no other token has one. -/
theorem InlineToken.span?_eq (token : InlineToken) (offset : Nat) :
    (token.isStyled = true ∧ ∃ style, token.HasStyle style ∧ token.span? offset =
        some ⟨style, .ofLength offset (utf16Length token.rendered)⟩) ∨
      token.isStyled = false ∧ token.span? offset = none := by
  cases token with
  | text t => exact .inr ⟨rfl, by simp [span?, style?]⟩
  | other source => exact .inr ⟨rfl, by simp [span?, style?]⟩
  | strong t => exact (span?_of_hasStyle rfl rfl offset).imp_left fun h => ⟨h.1, _, .strong t, h.2⟩
  | emphasis t =>
    exact (span?_of_hasStyle rfl rfl offset).imp_left fun h => ⟨h.1, _, .emphasis t, h.2⟩
  | link t target =>
    exact (span?_of_hasStyle rfl rfl offset).imp_left fun h => ⟨h.1, _, .link t target, h.2⟩

theorem InlineToken.rendered_ne_empty {token : InlineToken} (h : token.isStyled = true) :
    token.rendered ≠ "" := by
  cases token with
  | text t => cases h
  | other source => cases h
  | strong t => exact bne_iff_ne.1 h
  | emphasis t => exact bne_iff_ne.1 h
  | link t target => exact bne_iff_ne.1 h

/-- The spans of tokens that stand behind `front` stand at the texts of the styled ones. -/
theorem forall₂_spansFrom (front : String) (tokens : List InlineToken) :
    List.Forall₂ (fun token span => token.HasStyle span.style ∧
        StandsAt (front ++ InlineToken.renderAll tokens) token.rendered span.range)
      (tokens.filter InlineToken.isStyled) (spansFrom (utf16Length front) tokens) := by
  induction tokens generalizing front with
  | nil => exact .nil
  | cons token tokens ih =>
    have hrest := ih (front ++ token.rendered)
    rw [utf16Length_append, String.append_assoc, ← InlineToken.renderAll_cons] at hrest
    rw [spansFrom]
    obtain ⟨hstyled, style, hstyle, hspan⟩ | ⟨hplain, hspan⟩ := token.span?_eq (utf16Length front)
    · rw [hspan, List.filter_cons_of_pos hstyled]
      refine .cons ⟨hstyle, front, InlineToken.renderAll tokens, ?_, rfl⟩ hrest
      rw [InlineToken.renderAll_cons, String.append_assoc]
    · rw [hspan, List.filter_cons_of_neg (by rw [hplain]; exact Bool.false_ne_true)]
      exact hrest

theorem start_spansFrom {offset : Nat} {tokens : List InlineToken} {span : StyleSpan}
    (h : span ∈ spansFrom offset tokens) : offset ≤ span.range.start := by
  induction tokens generalizing offset with
  | nil => cases h
  | cons token tokens ih =>
    rw [spansFrom, List.mem_append] at h
    obtain hfirst | hrest := h
    · obtain ⟨-, style, -, hspan⟩ | ⟨-, hspan⟩ := token.span?_eq offset
      · rw [hspan] at hfirst
        obtain rfl := List.mem_singleton.1 hfirst
        exact Nat.le_refl _
      · rw [hspan] at hfirst
        cases hfirst
    · exact Nat.le_of_add_right_le (ih hrest)

/-- Each span ends where the next one starts, or ahead of it. -/
theorem pairwise_spansFrom (offset : Nat) (tokens : List InlineToken) :
    (spansFrom offset tokens).Pairwise fun s t => s.range.stop ≤ t.range.start := by
  induction tokens generalizing offset with
  | nil => exact .nil
  | cons token tokens ih =>
    rw [spansFrom]
    obtain ⟨-, style, -, hspan⟩ | ⟨-, hspan⟩ := token.span?_eq offset
    · rw [hspan]
      exact .cons (fun span hspan => start_spansFrom hspan) (ih _)
    · rw [hspan]
      exact ih _

theorem renderAll_eq_join (tokens : List InlineToken) :
    InlineToken.renderAll tokens = String.join (tokens.map InlineToken.rendered) := by
  induction tokens with
  | nil => rfl
  | cons token tokens ih => rw [InlineToken.renderAll_cons, ih, List.map_cons, String.join_cons]

theorem spansFrom_append (offset : Nat) (tokens more : List InlineToken) :
    spansFrom offset (tokens ++ more) = spansFrom offset tokens ++
      spansFrom (offset + utf16Length (InlineToken.renderAll tokens)) more := by
  induction tokens generalizing offset with
  | nil => rfl
  | cons token tokens ih =>
    rw [List.cons_append, spansFrom, ih, spansFrom, InlineToken.renderAll_cons, utf16Length_append,
      List.append_assoc, Nat.add_assoc]

/-- The span of a styled token starts behind the texts of the tokens ahead of it. -/
theorem exists_span (before after : List InlineToken) {token : InlineToken}
    (h : token.isStyled = true) :
    ∃ span ∈ spansFrom 0 (before ++ token :: after), token.HasStyle span.style ∧
      span.range = .ofLength (utf16Length (String.join (before.map InlineToken.rendered)))
        (utf16Length token.rendered) := by
  rw [← renderAll_eq_join, spansFrom_append, spansFrom, Nat.zero_add]
  obtain ⟨-, style, hstyle, hspan⟩ | ⟨hplain, -⟩ :=
    token.span?_eq (utf16Length (InlineToken.renderAll before))
  · rw [hspan]
    exact ⟨_, List.mem_append_right _ List.mem_cons_self, hstyle, rfl⟩
  · rw [h] at hplain
    cases hplain

/-- In a pairing of two lists each member of the second has a partner. -/
theorem exists_of_mem_right {α β : Type} {R : α → β → Prop} {as : List α} {bs : List β}
    (h : List.Forall₂ R as bs) {b : β} (hb : b ∈ bs) : ∃ a ∈ as, R a b := by
  induction h with
  | nil => cases hb
  | cons hr hrest ih =>
    cases hb with
    | head => exact ⟨_, List.mem_cons_self, hr⟩
    | tail _ hb =>
      obtain ⟨a, ha, hab⟩ := ih hb
      exact ⟨a, List.mem_cons_of_mem _ ha, hab⟩

/-! ### The composed text -/

/-- **What a composed run is.** Its text is that of the tokens, and its spans are those of the
styled tokens: each has the style of its token, and cuts the token's text out of the whole, behind
the texts of the tokens ahead of it. -/
structure StyledText.Composes (out : StyledText) (tokens : List InlineToken) : Prop where
  text : out.text = String.join (tokens.map InlineToken.rendered)
  spans : List.Forall₂ (fun token span => token.HasStyle span.style ∧
      cut (utf16 out.text) span.range = utf16 token.rendered)
    (tokens.filter InlineToken.isStyled) out.spans
  behind : ∀ before token after, tokens = before ++ token :: after → token.isStyled = true →
    ∃ span ∈ out.spans, token.HasStyle span.style ∧
      span.range = .ofLength (utf16Length (String.join (before.map InlineToken.rendered)))
        (utf16Length token.rendered)
  nonempty : ∀ span ∈ out.spans, span.range.start < span.range.stop
  within : ∀ span ∈ out.spans, span.range.stop ≤ utf16Length out.text
  increasing : out.spans.Pairwise fun s t => s.range.stop ≤ t.range.start
  keepsPairs : ∀ span ∈ out.spans, ¬ SplitsPair (utf16 out.text) span.range.start ∧
    ¬ SplitsPair (utf16 out.text) span.range.stop

/-- **Composing is exact**: any run of tokens is composed to its text and its spans. -/
theorem compose_exact (tokens : List InlineToken) : (compose tokens).Composes tokens := by
  have hspans := forall₂_spansFrom "" tokens
  rw [String.empty_append, utf16Length_empty] at hspans
  have hstands : ∀ span ∈ spansFrom 0 tokens, ∃ part, part ≠ "" ∧
      StandsAt (InlineToken.renderAll tokens) part span.range := by
    intro span hmem
    obtain ⟨token, htoken, -, hat⟩ := exists_of_mem_right hspans hmem
    exact ⟨token.rendered, InlineToken.rendered_ne_empty (List.mem_filter.1 htoken).2, hat⟩
  refine ⟨renderAll_eq_join tokens, hspans.imp fun token span h => ⟨h.1, h.2.cut_eq⟩, ?_, ?_, ?_,
    pairwise_spansFrom 0 tokens, ?_⟩
  · rintro before token after rfl hstyled
    exact exists_span before after hstyled
  · intro span hmem
    obtain ⟨part, hpart, hat⟩ := hstands span hmem
    exact hat.start_lt_stop hpart
  · intro span hmem
    obtain ⟨part, -, hat⟩ := hstands span hmem
    exact hat.stop_le
  · intro span hmem
    obtain ⟨part, -, hat⟩ := hstands span hmem
    exact ⟨hat.not_splitsPair_start, hat.not_splitsPair_stop⟩

example : (compose [.text "😄 ", .strong "ok"]).spans = [⟨.bold, ⟨3, 5⟩⟩] := by decide

end MarkdownEdits
