import Mathlib.Data.List.TakeWhile
import MarkdownEdits.Text.Blank

/-!
# Trimmed texts

Trimming a text leaves nothing just where the text is blank, and blanks at either end of a text do
not change what is left. What is left has no blank at either end.
-/

namespace MarkdownEdits.Text

/-- A text of white space alone. -/
def IsBlankText (s : String) : Prop := ∀ c ∈ s.toList, isBlank c = true

/-- A text that neither begins nor ends with white space. -/
structure IsTrimmed (s : String) : Prop where
  head : ∀ c ∈ s.toList.head?, isBlank c = false
  last : ∀ c ∈ s.toList.getLast?, isBlank c = false

section List

variable {α : Type} {p : α → Bool} {as bs : List α}

theorem dropEndWhile_append_of_pos (h : ∀ b ∈ bs, p b) :
    dropEndWhile p (as ++ bs) = dropEndWhile p as := by
  rw [dropEndWhile, List.reverse_append, List.dropWhile_append_of_pos, dropEndWhile]
  simpa using h

theorem dropEndWhile_eq_nil_iff : dropEndWhile p as = [] ↔ ∀ a ∈ as, p a := by
  rw [dropEndWhile, List.reverse_eq_nil_iff, List.dropWhile_eq_nil_iff]
  simp

/-- Nothing falls away from a list without `p`. -/
theorem dropEndWhile_eq_self (h : ∀ a ∈ as, p a = false) : dropEndWhile p as = as := by
  rw [dropEndWhile]
  cases hreverse : as.reverse with
  | nil => rw [List.dropWhile_nil, ← hreverse, List.reverse_reverse]
  | cons a rest =>
    have ha : p a = false := h a (List.mem_reverse.1 (hreverse ▸ List.mem_cons_self))
    rw [List.dropWhile_cons_of_neg (by rw [ha]; exact Bool.false_ne_true), ← hreverse,
      List.reverse_reverse]

/-- The part without its head of `p` holds nothing but `p` if the list does. -/
theorem forall_mem_dropWhile_iff : (∀ a ∈ as.dropWhile p, p a) ↔ ∀ a ∈ as, p a := by
  induction as with
  | nil => rfl
  | cons a as ih =>
    by_cases ha : p a = true
    · rw [List.dropWhile_cons_of_pos ha, ih, List.forall_mem_cons, and_iff_right ha]
    · rw [List.dropWhile_cons_of_neg ha]

/-- The end of a list falls away whether or not its head does so first. -/
theorem dropEndWhile_dropWhile_append (h : ∀ b ∈ bs, p b) :
    dropEndWhile p ((as ++ bs).dropWhile p) = dropEndWhile p (as.dropWhile p) := by
  rw [List.dropWhile_append]
  split
  · next hnil =>
    rw [List.isEmpty_iff.1 hnil, List.dropWhile_eq_nil_iff.2 h]
  · rw [dropEndWhile_append_of_pos h]

theorem eq_false_of_mem_head?_dropWhile {a : α} (h : a ∈ (as.dropWhile p).head?) : p a = false := by
  have hhead := List.head?_dropWhile_not p as
  rwa [h] at hhead

theorem eq_false_of_mem_getLast?_dropEndWhile {a : α} (h : a ∈ (dropEndWhile p as).getLast?) :
    p a = false := by
  rw [dropEndWhile, List.getLast?_reverse] at h
  exact eq_false_of_mem_head?_dropWhile h

/-- What is left of a list without its end begins as the list does. -/
theorem mem_head?_of_mem_head?_dropEndWhile {a : α} (h : a ∈ (dropEndWhile p as).head?) :
    a ∈ as.head? := by
  rw [← takeEndWhile_append_dropEndWhile p as, List.head?_append, h]
  rfl

end List

/-- Nothing is left of blanks without the blanks. -/
theorem filter_not_isBlank_eq_nil {cs : List Char} (h : ∀ c ∈ cs, isBlank c = true) :
    (cs.filter fun c => !isBlank c) = [] := by
  rw [List.filter_eq_nil_iff]
  intro c hc
  rw [h c hc]
  exact Bool.false_ne_true

section Trim

variable {s t : String}

theorem isBlankText_append : IsBlankText (s ++ t) ↔ IsBlankText s ∧ IsBlankText t := by
  simp [IsBlankText, String.toList_append, or_imp, forall_and]

theorem isBlankText_space : IsBlankText " " := by
  intro c hc
  rw [List.mem_singleton.1 (show c ∈ [' '] from hc)]
  rfl

theorem trim_eq_empty_iff : trim s = "" ↔ IsBlankText s := by
  rw [trim, ← String.toList_inj, String.toList_ofList]
  show dropEndWhile isBlank _ = [] ↔ _
  rw [dropEndWhile_eq_nil_iff, forall_mem_dropWhile_iff, IsBlankText]

@[simp] theorem trim_empty : trim "" = "" := trim_eq_empty_iff.2 nofun

theorem trim_blank_append (h : IsBlankText s) : trim (s ++ t) = trim t := by
  rw [trim, String.toList_append, List.dropWhile_append_of_pos h, trim]

theorem trim_append_blank (h : IsBlankText t) : trim (s ++ t) = trim s := by
  rw [trim, String.toList_append, dropEndWhile_dropWhile_append h, trim]

theorem withoutBlanks_eq_empty_iff : withoutBlanks s = "" ↔ IsBlankText s := by
  rw [withoutBlanks, ← String.toList_inj, String.toList_ofList]
  show List.filter _ _ = [] ↔ _
  rw [List.filter_eq_nil_iff, IsBlankText]
  simp only [Bool.not_eq_true', Bool.not_eq_false]

theorem trim_append_eq_empty_iff : trim (s ++ t) = "" ↔ trim s = "" ∧ trim t = "" := by
  rw [trim_eq_empty_iff, trim_eq_empty_iff, trim_eq_empty_iff, isBlankText_append]

theorem isTrimmed_trim (s : String) : IsTrimmed (trim s) := by
  constructor
  · intro c hc
    rw [trim, String.toList_ofList] at hc
    exact eq_false_of_mem_head?_dropWhile (mem_head?_of_mem_head?_dropEndWhile hc)
  · intro c hc
    rw [trim, String.toList_ofList] at hc
    exact eq_false_of_mem_getLast?_dropEndWhile hc

end Trim

end MarkdownEdits.Text
