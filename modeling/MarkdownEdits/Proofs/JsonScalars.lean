import Mathlib.Algebra.Group.Int.Defs
import Mathlib.Algebra.Group.Nat.Defs
import MarkdownEdits.Json.Parser
import MarkdownEdits.Json.Printer

/-!
# Scalars of JSON read back

A quoted string and a printed integer are read back as what they were, whatever text follows that
can follow a value.
-/

namespace MarkdownEdits.Json

/-! ### Strings -/

theorem hexUnit?_hexDigit {n : Nat} (h : n < 0x20) :
    hexUnit? '0' '0' (hexDigit (n / 16)) (hexDigit (n % 16)) = some n := by
  revert n
  decide

/-- A control character behind its escape, if it has no letter of its own. -/
theorem stringBody_unicode {c : Char} (h : c.toNat < 0x20) (rest : List Char) :
    stringBody none
        ('\\' :: 'u' :: '0' :: '0' :: hexDigit (c.toNat / 16) :: hexDigit (c.toNat % 16) :: rest) =
      (stringBody none rest).map fun (cs, rest) => (c :: cs, rest) := by
  have hhigh : ¬ (0xD800 ≤ c.toNat ∧ c.toNat < 0xDC00) := by omega
  have hlow : ¬ (0xDC00 ≤ c.toNat ∧ c.toNat < 0xE000) := by omega
  rw [stringBody.eq_2 _ _ _ _ _ _ (hexUnit?_hexDigit h), if_neg hhigh, if_neg hlow,
    Char.ofNat_toNat]

/-- A character that is not escaped stands for itself. -/
theorem stringBody_plain {c : Char} (hquote : c ≠ '"') (hslash : c ≠ '\\') (h : ¬ c.toNat < 0x20)
    (rest : List Char) :
    stringBody none (c :: rest) =
      (stringBody none rest).map fun (cs, rest) => (c :: cs, rest) := by
  have hescape : ∀ (e : Char) (tail : List Char), c = '\\' → rest = e :: tail → False :=
    fun _ _ h _ => hslash h
  have hunicode : ∀ (a b d e : Char) (tail : List Char), c = '\\' →
      rest = 'u' :: a :: b :: d :: e :: tail → False := fun _ _ _ _ _ h _ => hslash h
  rw [stringBody.eq_5 c rest hunicode hescape, if_neg hquote, if_neg h]

/-- **A character is read back from its escape.** -/
theorem stringBody_escape (c : Char) (rest : List Char) :
    stringBody none (escape c ++ rest) =
      (stringBody none rest).map fun (cs, rest) => (c :: cs, rest) := by
  unfold escape
  split
  · next hc =>
    subst hc
    simp [stringBody, unescape?]
  split
  · next hc =>
    subst hc
    simp [stringBody, unescape?]
  split
  · next hcontrol =>
    -- five control characters have a letter of their own
    have hletter : ∀ n, c.toNat = n → c = Char.ofNat n := fun n hn => by
      rw [← hn, Char.ofNat_toNat]
    split
    · next h => rw [hletter 8 h]; simp [stringBody, unescape?]
    · next h => rw [hletter 9 h]; simp [stringBody, unescape?]
    · next h => rw [hletter 10 h]; simp [stringBody, unescape?]
    · next h => rw [hletter 12 h]; simp [stringBody, unescape?]
    · next h => rw [hletter 13 h]; simp [stringBody, unescape?]
    · exact stringBody_unicode hcontrol rest
  · next hquote hslash hcontrol => exact stringBody_plain hquote hslash hcontrol rest

/-- **A string is read back from its quoted form.** -/
theorem stringBody_quoted (cs rest : List Char) :
    stringBody none (cs.flatMap escape ++ '"' :: rest) = some (cs, rest) := by
  induction cs with
  | nil => simp [stringBody]
  | cons c cs ih =>
    rw [List.flatMap_cons, List.append_assoc, stringBody_escape, ih]
    rfl

theorem quote_append (s : String) (rest : List Char) :
    quote s ++ rest = '"' :: (s.toList.flatMap escape ++ '"' :: rest) := by
  simp [quote]

/-! ### Digits -/

theorem natOfDigits_toDigits (n : Nat) : natOfDigits (Nat.toDigits 10 n) = n := by
  have hstep : (fun n d => n * 10 + digitValue d) = fun n d => 10 * n + (d.toNat - '0'.toNat) := by
    funext n d
    rw [Nat.mul_comm]
    rfl
  rw [natOfDigits, hstep]
  exact Nat.ofDigitChars_toDigits (by decide) (by decide)

theorem isDigit_of_mem_toDigits {n : Nat} {c : Char} (h : c ∈ Nat.toDigits 10 n) :
    isDigit c = true :=
  Nat.isDigit_of_mem_toDigits (by decide) (by decide) h

/-- The digits of a number start with a zero only if it is the number zero. -/
theorem head?_toDigits_ne_zero {n : Nat} (h : 0 < n) : (Nat.toDigits 10 n).head? ≠ some '0' := by
  induction n using Nat.strongRecOn with
  | ind n ih =>
    by_cases hn : n < 10
    · have hdigit : ∀ n < 10, 0 < n → Nat.digitChar n ≠ '0' := by decide
      rw [Nat.toDigits_of_lt_base hn, List.head?_cons]
      exact fun heq => hdigit n hn h (Option.some.inj heq)
    · have hpos : 0 < n / 10 := by omega
      have hsplit := Nat.toDigits_append_toDigits (b := 10) (n := n / 10) (d := n % 10) (by decide)
        hpos (by omega)
      rw [show 10 * (n / 10) + n % 10 = n by omega] at hsplit
      have hne : Nat.toDigits 10 (n / 10) ≠ [] := Nat.toDigits_ne_nil
      obtain ⟨d, hd⟩ : ∃ d, (Nat.toDigits 10 (n / 10)).head? = some d :=
        Option.ne_none_iff_exists'.1 fun hnone => hne (List.head?_eq_none_iff.1 hnone)
      have hfirst := ih (n / 10) (by omega) hpos
      rw [← hsplit, List.head?_append, hd, Option.some_or]
      rwa [hd] at hfirst

/-- Digits do not start with a sign, and there is at least one. -/
theorem exists_toDigits_eq_cons (n : Nat) :
    ∃ d ds, Nat.toDigits 10 n = d :: ds ∧ d ≠ '+' ∧ d ≠ '-' := by
  cases hds : Nat.toDigits 10 n with
  | nil => exact absurd hds Nat.toDigits_ne_nil
  | cons d ds =>
    have hd : isDigit d = true := isDigit_of_mem_toDigits (hds ▸ List.mem_cons_self)
    refine ⟨d, ds, rfl, ?_, ?_⟩
    · rintro rfl
      cases hd
    · rintro rfl
      cases hd

/-! ### Integers -/

theorem toList_toString_ofNat (n : Nat) : (toString (Int.ofNat n)).toList = Nat.toDigits 10 n :=
  Nat.toList_repr

theorem toList_toString_negSucc (n : Nat) :
    (toString (Int.negSucc n)).toList = '-' :: Nat.toDigits 10 (n + 1) := by
  show ("-" ++ (n + 1).repr).toList = _
  rw [String.toList_append, Nat.toList_repr]
  rfl

/-- What may follow a value in a text: nothing, a blank, a comma or a closing bracket. -/
def Follows (rest : List Char) : Prop :=
  ∀ c ∈ rest.head?, isSpace c = true ∨ c = ',' ∨ c = ']' ∨ c = '\x7d'

theorem Follows.not_number {rest : List Char} (h : Follows rest) {c : Char}
    (hc : c ∈ rest.head?) : isDigit c = false ∧ c ≠ '.' ∧ c ≠ 'e' ∧ c ≠ 'E' := by
  have hcases : c = ' ' ∨ c = '\t' ∨ c = '\n' ∨ c = '\r' ∨ c = ',' ∨ c = ']' ∨ c = '\x7d' := by
    have h := h c hc
    simpa only [isSpace, Bool.or_eq_true, beq_iff_eq, or_assoc] using h
  rcases hcases with rfl | rfl | rfl | rfl | rfl | rfl | rfl <;> decide

/-- Digits are taken up to what is none. -/
theorem span_digits {ds : List Char} (rest : List Char) (hds : ∀ c ∈ ds, isDigit c = true)
    (hrest : ∀ c ∈ rest.head?, isDigit c = false) :
    (ds ++ rest).takeWhile isDigit = ds ∧ (ds ++ rest).dropWhile isDigit = rest := by
  rw [List.takeWhile_append_of_pos hds, List.dropWhile_append_of_pos hds]
  cases rest with
  | nil => exact ⟨List.append_nil _, rfl⟩
  | cons c rest =>
    have hc := hrest c rfl
    simp [hc]

/-- The digits of an integer are read up to what follows it. -/
theorem magnitude?_toDigits {n : Nat} {negative : Bool} {x : JsonNumber}
    (hx : integer? negative n = some x) {rest : List Char} (h : Follows rest) :
    magnitude? negative (Nat.toDigits 10 n ++ rest) = some (x, rest) := by
  have hdigits : ∀ c ∈ Nat.toDigits 10 n, isDigit c = true := fun c => isDigit_of_mem_toDigits
  obtain ⟨htake, hdrop⟩ := span_digits rest hdigits fun c hc => (h.not_number hc).1
  have hempty : (Nat.toDigits 10 n).isEmpty = false := by
    rw [List.isEmpty_eq_false_iff]
    exact Nat.toDigits_ne_nil
  have hzero : ¬ ((Nat.toDigits 10 n).head? = some '0' ∧ 1 < (Nat.toDigits 10 n).length) := by
    rintro ⟨hhead, hlength⟩
    rcases Nat.eq_zero_or_pos n with rfl | hn
    · exact absurd hlength (by decide)
    · exact head?_toDigits_ne_zero hn hhead
  unfold magnitude?
  rw [htake, hdrop]
  simp only [hempty, Bool.false_eq_true, false_or, if_neg hzero, natOfDigits_toDigits, hx]
  split
  · exact absurd rfl (h.not_number (c := '.') rfl).2.1
  · exact absurd rfl (h.not_number (c := 'e') rfl).2.2.1
  · exact absurd rfl (h.not_number (c := 'E') rfl).2.2.2
  · rfl

/-- An integer that a JSON number can hold. -/
def IsExact (x : JsonNumber) : Prop := ∃ n : Int, x = .int n ∧ -2 ^ 63 ≤ n ∧ n < 2 ^ 64

theorem isExact_ofNat {n : Nat} (h : n < 2 ^ 64) : IsExact (.int n) :=
  ⟨n, rfl, by omega, by omega⟩

/-- **An integer is read back from its digits.** -/
theorem number?_text {x : JsonNumber} (hx : IsExact x) {rest : List Char} (h : Follows rest) :
    number? (x.text.toList ++ rest) = some (x, rest) := by
  obtain ⟨n, rfl, hlow, hhigh⟩ := hx
  cases n with
  | ofNat n =>
    have htext : (JsonNumber.int (Int.ofNat n)).text.toList = Nat.toDigits 10 n :=
      toList_toString_ofNat n
    have hvalue : integer? false n = some (.int (Int.ofNat n)) := by
      simp only [integer?, Bool.false_eq_true, if_false]
      have hn : n < 1 <<< 64 := by
        have hword : (n : Int) < 2 ^ 64 := hhigh
        omega
      rw [if_pos hn]
      rfl
    have hsign : ∀ cs, Nat.toDigits 10 n ++ rest ≠ '-' :: cs := by
      intro cs heq
      obtain ⟨d, ds, hds, -, hminus⟩ := exists_toDigits_eq_cons n
      rw [hds] at heq
      exact hminus (List.cons.inj heq).1
    rw [htext, number?.eq_2 _ hsign]
    exact magnitude?_toDigits hvalue h
  | negSucc n =>
    have htext : (JsonNumber.int (Int.negSucc n)).text.toList = '-' :: Nat.toDigits 10 (n + 1) :=
      toList_toString_negSucc n
    have hvalue : integer? true (n + 1) = some (.int (Int.negSucc n)) := by
      simp only [integer?, if_true]
      rw [if_pos (by omega)]
      rfl
    rw [htext, List.cons_append, number?]
    exact magnitude?_toDigits hvalue h

end MarkdownEdits.Json
