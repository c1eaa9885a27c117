import MarkdownEdits.Proofs.JsonScalars
import MarkdownEdits.Proofs.ShortestDecimals

/-!
# Numbers of JSON read back

The text of a double is read as a double, whatever text follows that can follow a value. It is a
number of digits before the point, digits behind it, and an exponent, and together these are the
shortest decimal. Reading rounds more than once, so the largest doubles need a look of their own,
and what is read need not be the double that was written.
-/

namespace MarkdownEdits.Json

/-! ### Digits -/

/-- The number that digits lead to when they follow the digits of `n`. -/
def foldDigits (n : ℕ) (ds : List Char) : ℕ := ds.foldl (fun n d => n * 10 + digitValue d) n

@[simp] theorem foldDigits_nil (n : ℕ) : foldDigits n [] = n := rfl

@[simp] theorem foldDigits_cons (n : ℕ) (d : Char) (ds : List Char) :
    foldDigits n (d :: ds) = foldDigits (n * 10 + digitValue d) ds := by
  rw [foldDigits, List.foldl_cons, foldDigits]

theorem natOfDigits_append (ds es : List Char) :
    natOfDigits (ds ++ es) = foldDigits (natOfDigits ds) es := List.foldl_append

theorem mul_pow_le_foldDigits (n : ℕ) (ds : List Char) : n * 10 ^ ds.length ≤ foldDigits n ds := by
  induction ds generalizing n with
  | nil => simp
  | cons d ds ih =>
    calc n * 10 ^ (d :: ds).length = n * 10 * 10 ^ ds.length := by
          rw [List.length_cons, pow_succ]
          ring
      _ ≤ (n * 10 + digitValue d) * 10 ^ ds.length :=
          Nat.mul_le_mul_right _ (Nat.le_add_right _ _)
      _ ≤ foldDigits n (d :: ds) := ih _

theorem le_foldDigits (n : ℕ) (ds : List Char) : n ≤ foldDigits n ds :=
  (Nat.le_mul_of_pos_right n (by positivity)).trans (mul_pow_le_foldDigits n ds)

theorem digitValue_le {d : Char} (h : isDigit d = true) : digitValue d ≤ 9 := by
  simp only [isDigit, Bool.and_eq_true, decide_eq_true_eq] at h
  have hle : d.toNat ≤ 57 := h.2
  rw [digitValue]
  omega

theorem foldDigits_lt {n : ℕ} {ds : List Char} (h : ∀ d ∈ ds, isDigit d = true) :
    foldDigits n ds < (n + 1) * 10 ^ ds.length := by
  induction ds generalizing n with
  | nil => simp
  | cons d ds ih =>
    obtain ⟨hd, hrest⟩ := List.forall_mem_cons.1 h
    have hdigit := digitValue_le hd
    calc foldDigits n (d :: ds) < (n * 10 + digitValue d + 1) * 10 ^ ds.length := ih hrest
      _ ≤ (n + 1) * 10 * 10 ^ ds.length := Nat.mul_le_mul_right _ (by omega)
      _ = (n + 1) * 10 ^ (d :: ds).length := by
          rw [List.length_cons, pow_succ]
          ring

theorem foldDigits_zeros (n k : ℕ) : foldDigits n (List.replicate k '0') = n * 10 ^ k := by
  induction k generalizing n with
  | zero => simp
  | succ k ih =>
    have hzero : digitValue '0' = 0 := rfl
    rw [List.replicate_succ, foldDigits_cons, ih, hzero, pow_succ]
    ring

/-- Digits are appended as long as there is room for them; what is left out is lost. -/
theorem appendDigits_le {n : ℕ} (hn : n < 2 ^ 64) (ds : List Char) :
    (appendDigits n ds).1 < 2 ^ 64 ∧ (appendDigits n ds).2 ≤ ds.length ∧
      (appendDigits n ds).1 * 10 ^ (ds.length - (appendDigits n ds).2) ≤ foldDigits n ds := by
  induction ds generalizing n with
  | nil => exact ⟨hn, le_rfl, by simp [appendDigits]⟩
  | cons d ds ih =>
    rw [appendDigits]
    split
    · next hroom =>
      obtain ⟨hlt, hlength, hle⟩ := ih hroom
      refine ⟨hlt, Nat.succ_le_succ hlength, ?_⟩
      rw [foldDigits_cons]
      simpa using hle
    · exact ⟨hn, Nat.zero_le _, by simpa using mul_pow_le_foldDigits n (d :: ds)⟩

/-- Digits that have room are all appended. -/
theorem appendDigits_of_lt {n : ℕ} {ds : List Char} (h : foldDigits n ds < 2 ^ 64) :
    appendDigits n ds = (foldDigits n ds, ds.length) := by
  induction ds generalizing n with
  | nil => rfl
  | cons d ds ih =>
    have hroom : n * 10 + digitValue d < 1 <<< 64 := (le_foldDigits _ ds).trans_lt h
    rw [appendDigits, if_pos hroom, ih h]
    rfl

/-- **A decimal that is not too large is read.** -/
theorem double?_isSome (negative : Bool) {whole fraction : List Char} {exponent : ℤ}
    (hwhole : natOfDigits whole < 2 ^ 64)
    (h : (natOfDigits (whole ++ fraction) : ℚ) * 10 ^ (exponent - fraction.length) ≤
      Binary64.scaleLimit) :
    (double? negative whole fraction exponent).isSome = true := by
  have hdigits : appendDigits 0 whole = (natOfDigits whole, whole.length) :=
    appendDigits_of_lt hwhole
  obtain ⟨hlt, hlength, hle⟩ := appendDigits_le hwhole fraction
  rw [← natOfDigits_append] at hle
  have hten : (0 : ℚ) < 10 := by norm_num
  have hpower : (0 : ℚ) < 10 ^ (exponent - fraction.length) := zpow_pos hten _
  have hvalue : ((appendDigits (natOfDigits whole) fraction).1 : ℚ) *
      10 ^ (((whole.length - whole.length : ℕ) : ℤ) -
        (appendDigits (natOfDigits whole) fraction).2 + exponent) ≤ Binary64.scaleLimit := by
    have hexponent : ((whole.length - whole.length : ℕ) : ℤ) -
        (appendDigits (natOfDigits whole) fraction).2 + exponent =
          ((fraction.length - (appendDigits (natOfDigits whole) fraction).2 : ℕ) : ℤ) +
            (exponent - fraction.length) := by omega
    rw [hexponent, zpow_add₀ hten.ne', zpow_natCast, ← mul_assoc]
    refine le_trans (mul_le_mul_of_nonneg_right ?_ hpower.le) h
    exact_mod_cast hle
  obtain ⟨x, hx⟩ := Option.isSome_iff_exists.1 (Binary64.scale10_isSome hlt hvalue)
  simp only [double?, hdigits, hx]
  rfl

/-! ### Parts of a number -/

theorem Follows.optionalExponent? {rest : List Char} (h : Follows rest) :
    Json.optionalExponent? rest = some (0, rest) := by
  unfold Json.optionalExponent?
  split
  · exact absurd rfl (h.not_number (c := 'e') rfl).2.2.1
  · exact absurd rfl (h.not_number (c := 'E') rfl).2.2.2
  · rfl

/-- The digits of an exponent are read up to what follows. -/
theorem exponent?_toDigits (n : ℕ) {rest : List Char} (h : Follows rest) :
    exponent? (Nat.toDigits 10 n ++ rest) = some ((n : ℤ), rest) ∧
      exponent? ('-' :: (Nat.toDigits 10 n ++ rest)) = some (-(n : ℤ), rest) := by
  have hdigits : ∀ c ∈ Nat.toDigits 10 n, isDigit c = true := fun c => isDigit_of_mem_toDigits
  obtain ⟨htake, hdrop⟩ := span_digits rest hdigits fun c hc => (h.not_number hc).1
  have hvalue := natOfDigits_toDigits n
  obtain ⟨d, ds, hds, hplus, hminus⟩ := exists_toDigits_eq_cons n
  rw [hds] at htake hdrop hvalue ⊢
  constructor
  · unfold exponent?
    split
    next sign cs hsign =>
    split at hsign
    · next heq => exact absurd (List.cons.inj heq).1 hplus
    · next heq => exact absurd (List.cons.inj heq).1 hminus
    · obtain ⟨rfl, rfl⟩ := Prod.mk.inj hsign
      simp only [htake, hdrop, hvalue]
      rfl
  · unfold exponent?
    simp only [htake, hdrop, hvalue]
    rfl

/-- **An exponent is read back from its text.** -/
theorem exponent?_toString (e : ℤ) {rest : List Char} (h : Follows rest) :
    exponent? ((toString e).toList ++ rest) = some (e, rest) := by
  cases e with
  | ofNat n =>
    rw [toList_toString_ofNat]
    exact (exponent?_toDigits n h).1
  | negSucc n =>
    rw [toList_toString_negSucc]
    exact (exponent?_toDigits (n + 1) h).2

/-! ### The parts of a decimal -/

/-- Digits before and behind the point, and an exponent. -/
structure Decimal where
  whole : List Char
  fraction : List Char
  exponent : ℤ

namespace Decimal

/-- The number that a reader makes of the parts. -/
def double? (d : Decimal) (negative : Bool) : Option JsonNumber :=
  Json.double? negative d.whole d.fraction d.exponent

/-- The digits before the point start with a zero only where that is all, and the parts are digits. -/
structure IsProper (d : Decimal) : Prop where
  whole_ne_nil : d.whole ≠ []
  isDigit_whole : ∀ c ∈ d.whole, isDigit c = true
  zero_of_head : d.whole.head? = some '0' → d.whole.length = 1
  isDigit_fraction : ∀ c ∈ d.fraction, isDigit c = true

/-- The text is read as the parts, whatever follows that can follow a value. -/
def IsRead (d : Decimal) (text : List Char) : Prop :=
  ∀ negative rest, Follows rest →
    magnitude? negative (text ++ rest) = (d.double? negative).map (·, rest)

variable {d : Decimal}

theorem IsProper.not_refused (h : d.IsProper) :
    ¬ (d.whole.isEmpty = true ∨ (d.whole.head? = some '0' ∧ 1 < d.whole.length)) := by
  rintro (hempty | ⟨hhead, hlength⟩)
  · exact h.whole_ne_nil (List.isEmpty_iff.1 hempty)
  · have := h.zero_of_head hhead
    omega

/-- Point notation is read. -/
theorem IsProper.isRead_point (h : d.IsProper) (hfraction : d.fraction ≠ [])
    (hexponent : d.exponent = 0) : d.IsRead (d.whole ++ '.' :: d.fraction) := by
  intro negative rest hrest
  obtain ⟨htake, hdrop⟩ := span_digits ('.' :: (d.fraction ++ rest)) h.isDigit_whole (by
    rintro c ⟨⟩
    rfl)
  obtain ⟨htakeBehind, hdropBehind⟩ :=
    span_digits rest h.isDigit_fraction fun c hc => (hrest.not_number hc).1
  rw [List.append_assoc, List.cons_append, magnitude?]
  simp only [htake, hdrop, if_neg h.not_refused, htakeBehind, hdropBehind,
    hrest.optionalExponent?, List.isEmpty_eq_false_iff.2 hfraction, Option.bind_eq_bind,
    Option.bind_some, double?, hexponent]
  cases Json.double? negative d.whole d.fraction 0 <;> rfl

/-- Scientific notation is read. -/
theorem IsProper.isRead_scientific (h : d.IsProper) :
    d.IsRead (d.whole ++ (if d.fraction.isEmpty then [] else '.' :: d.fraction) ++
      'e' :: (toString d.exponent).toList) := by
  intro negative rest hrest
  have hexponent := exponent?_toString d.exponent hrest
  have hmark : ∀ c ∈ ('e' :: ((toString d.exponent).toList ++ rest)).head?, isDigit c = false := by
    rintro c ⟨⟩
    rfl
  split
  · next hempty =>
    obtain ⟨htake, hdrop⟩ := span_digits _ h.isDigit_whole hmark
    have hnil : d.fraction = [] := List.isEmpty_iff.1 hempty
    rw [List.append_nil, List.append_assoc, List.cons_append, magnitude?]
    simp only [htake, hdrop, if_neg h.not_refused, hexponent, Option.bind_eq_bind,
      Option.bind_some, double?, hnil]
    cases Json.double? negative d.whole [] d.exponent <;> rfl
  · next hnonempty =>
    obtain ⟨htake, hdrop⟩ := span_digits
      ('.' :: (d.fraction ++ 'e' :: ((toString d.exponent).toList ++ rest)))
      h.isDigit_whole (by
        rintro c ⟨⟩
        rfl)
    obtain ⟨htakeBehind, hdropBehind⟩ := span_digits _ h.isDigit_fraction hmark
    rw [List.append_assoc, List.append_assoc, List.cons_append, List.cons_append, magnitude?]
    simp only [htake, hdrop, if_neg h.not_refused, htakeBehind, hdropBehind, hnonempty,
      optionalExponent?, hexponent, Option.bind_eq_bind, Option.bind_some, double?]
    cases Json.double? negative d.whole d.fraction d.exponent <;> rfl

/-- The number that the parts stand for. -/
def value (d : Decimal) : ℚ :=
  natOfDigits (d.whole ++ d.fraction) * 10 ^ (d.exponent - d.fraction.length)

/-- **Parts of a number that is not too large are read as a double.** -/
theorem double?_isSome (hwhole : natOfDigits d.whole < 2 ^ 64)
    (hvalue : d.value ≤ Binary64.scaleLimit) (negative : Bool) :
    (d.double? negative).isSome = true :=
  Json.double?_isSome negative hwhole hvalue

/-- The parts in which a decimal is written, given its digits, the last of them at `10 ^ k`. -/
def ofDigits (ds : List Char) (k : ℤ) : Decimal :=
  let point := (ds.length : ℤ) + k
  if 0 ≤ k ∧ point ≤ 16 then ⟨ds ++ List.replicate k.toNat '0', ['0'], 0⟩
  else if 0 < point ∧ point ≤ 16 then ⟨ds.take point.toNat, ds.drop point.toNat, 0⟩
  else if -5 < point ∧ point ≤ 0 then ⟨['0'], List.replicate (-point).toNat '0' ++ ds, 0⟩
  else ⟨ds.take 1, ds.drop 1, point - 1⟩

section OfDigits

variable {ds more : List Char} {k : ℤ}

theorem isDigit_of_mem_zeros {n : ℕ} {c : Char} (h : c ∈ List.replicate n '0') :
    isDigit c = true := by
  rw [List.eq_of_mem_replicate h]
  rfl

theorem isDigit_of_mem_append (hds : ∀ c ∈ ds, isDigit c = true)
    (hmore : ∀ c ∈ more, isDigit c = true) : ∀ c ∈ ds ++ more, isDigit c = true :=
  List.forall_mem_append.2 ⟨hds, hmore⟩

/-- Digits of a positive number: there are some, and the first is not zero. -/
structure IsSignificand (ds : List Char) : Prop where
  ne_nil : ds ≠ []
  isDigit_of_mem : ∀ c ∈ ds, isDigit c = true
  head?_ne_zero : ds.head? ≠ some '0'

theorem isSignificand_toDigits {n : ℕ} (h : 0 < n) : IsSignificand (Nat.toDigits 10 n) :=
  ⟨Nat.toDigits_ne_nil, fun _ => isDigit_of_mem_toDigits, head?_toDigits_ne_zero h⟩

namespace IsSignificand

theorem append (h : IsSignificand ds) (hmore : ∀ c ∈ more, isDigit c = true) :
    IsSignificand (ds ++ more) := by
  refine ⟨List.append_ne_nil_of_left_ne_nil h.ne_nil _,
    isDigit_of_mem_append h.isDigit_of_mem hmore, ?_⟩
  rw [List.head?_append_of_ne_nil _ h.ne_nil]
  exact h.head?_ne_zero

theorem take (h : IsSignificand ds) {n : ℕ} (hn : 0 < n) : IsSignificand (ds.take n) := by
  refine ⟨?_, fun c hc => h.isDigit_of_mem c (List.mem_of_mem_take hc), ?_⟩
  · rw [Ne, List.take_eq_nil_iff]
    rintro (hzero | hnil)
    · omega
    · exact h.ne_nil hnil
  · rw [List.head?_take, if_neg (by omega)]
    exact h.head?_ne_zero

theorem isProper (h : IsSignificand ds) (hmore : ∀ c ∈ more, isDigit c = true) :
    IsProper ⟨ds, more, k⟩ :=
  ⟨h.ne_nil, h.isDigit_of_mem, fun hzero => absurd hzero h.head?_ne_zero, hmore⟩

end IsSignificand

theorem isProper_ofDigits (h : IsSignificand ds) : (ofDigits ds k).IsProper := by
  have hdrop : ∀ n, ∀ c ∈ ds.drop n, isDigit c = true := fun n c hc =>
    h.isDigit_of_mem c (List.mem_of_mem_drop hc)
  have hzero : ∀ c ∈ ['0'], isDigit c = true := fun c => isDigit_of_mem_zeros (n := 1)
  unfold ofDigits
  dsimp only
  split
  · exact (h.append fun c => isDigit_of_mem_zeros).isProper hzero
  split
  · exact (h.take (by omega)).isProper (hdrop _)
  split
  · exact ⟨List.cons_ne_nil _ _, hzero, fun _ => rfl,
      isDigit_of_mem_append (fun c => isDigit_of_mem_zeros) h.isDigit_of_mem⟩
  · exact (h.take Nat.one_pos).isProper (hdrop _)

/-- At most 16 digits stand before the point. -/
theorem length_whole_ofDigits_le : (ofDigits ds k).whole.length ≤ 16 := by
  unfold ofDigits
  dsimp only
  split
  · simp only [List.length_append, List.length_replicate]
    omega
  split
  · simp only [List.length_take]
    omega
  split
  · simp
  · simp only [List.length_take]
    omega

theorem natOfDigits_whole_lt (h : IsSignificand ds) :
    natOfDigits (ofDigits ds k).whole < 2 ^ 64 := by
  calc natOfDigits (ofDigits ds k).whole
      < (0 + 1) * 10 ^ (ofDigits ds k).whole.length :=
        foldDigits_lt (isProper_ofDigits h).isDigit_whole
    _ ≤ (0 + 1) * 10 ^ 16 :=
      Nat.mul_le_mul_left _ (Nat.pow_le_pow_right (by decide) length_whole_ofDigits_le)
    _ < 2 ^ 64 := by decide

/-- **The parts stand for the decimal.** -/
theorem value_ofDigits (hne : ds ≠ []) : (ofDigits ds k).value = natOfDigits ds * 10 ^ k := by
  have hlength := List.length_pos_of_ne_nil hne
  have hten : (10 : ℚ) ≠ 0 := by norm_num
  unfold ofDigits
  dsimp only
  split
  · next h =>
    obtain ⟨j, rfl⟩ := Int.eq_ofNat_of_zero_le h.1
    have hzeros : ds ++ List.replicate j '0' ++ ['0'] = ds ++ List.replicate (j + 1) '0' := by
      rw [List.append_assoc, List.replicate_succ']
    rw [value, Int.toNat_natCast, hzeros, natOfDigits_append, foldDigits_zeros, List.length_singleton,
      Nat.cast_mul, Nat.cast_pow, Nat.cast_ofNat, zpow_natCast, pow_succ, Nat.cast_one, zero_sub,
      zpow_neg_one]
    field_simp
  split
  · have hexponent : (0 : ℤ) - (ds.drop ((ds.length : ℤ) + k).toNat).length = k := by
      rw [List.length_drop]
      omega
    rw [value, List.take_append_drop, hexponent]
  split
  · have hexponent : (0 : ℤ) -
        (List.replicate (-((ds.length : ℤ) + k)).toNat '0' ++ ds).length = k := by
      rw [List.length_append, List.length_replicate]
      omega
    have hdigits : natOfDigits (['0'] ++ (List.replicate (-((ds.length : ℤ) + k)).toNat '0' ++ ds)) =
        natOfDigits ds := by
      have hzero : ∀ n, natOfDigits (['0'] ++ List.replicate n '0') = 0 := fun n => by
        rw [natOfDigits_append, foldDigits_zeros]
        exact Nat.zero_mul _
      rw [← List.append_assoc, natOfDigits_append, hzero]
      rfl
    rw [value, hdigits, hexponent]
  · have hexponent : (ds.length : ℤ) + k - 1 - (ds.drop 1).length = k := by
      rw [List.length_drop]
      omega
    rw [value, List.take_append_drop, hexponent]

/-- **The text of a decimal is read as its parts.** -/
theorem isRead_decimalText {digits : String} (hdigits : IsSignificand digits.toList) :
    (ofDigits digits.toList k).IsRead (Binary64.decimalText digits k).toList := by
  have hproper := isProper_ofDigits (k := k) hdigits
  have hlength : digits.length = digits.toList.length := String.length_toList.symm
  unfold Binary64.decimalText
  unfold ofDigits at hproper ⊢
  dsimp only at hproper ⊢
  rw [hlength]
  split
  · next h =>
    rw [if_pos h] at hproper
    have hread := hproper.isRead_point (List.cons_ne_nil _ _) rfl
    have htext : (digits ++ Binary64.zeros k ++ ".0").toList =
        digits.toList ++ List.replicate k.toNat '0' ++ ['.', '0'] := by
      simp [Binary64.zeros]
    rwa [htext]
  next h =>
  rw [if_neg h] at hproper
  split
  · next h =>
    rw [if_pos h] at hproper
    have hbehind : digits.toList.drop ((digits.toList.length : ℤ) + k).toNat ≠ [] := by
      rw [Ne, List.drop_eq_nil_iff]
      omega
    have hread := hproper.isRead_point hbehind rfl
    simpa using hread
  next h =>
  rw [if_neg h] at hproper
  split
  · next h =>
    rw [if_pos h] at hproper
    have hread := hproper.isRead_point (by simp [hdigits.ne_nil]) rfl
    simpa [Binary64.zeros] using hread
  · next h =>
    rw [if_neg h] at hproper
    have hread := hproper.isRead_scientific
    by_cases hbehind : digits.toList.drop 1 = []
    · rw [hbehind] at hread ⊢
      simpa using hread
    · have hempty : (String.ofList (digits.toList.drop 1)).isEmpty = false := by
        simpa using hbehind
      rw [List.isEmpty_eq_false_iff.2 hbehind] at hread
      rw [hempty]
      simpa using hread

end OfDigits

end Decimal

/-! ### Doubles -/

/-- The parts in which a double other than zero is written. -/
def decimal (x : Binary64) : Decimal := .ofDigits (Nat.toDigits 10 x.shortest.1) x.shortest.2

/-- The largest three are read although two roundings might lead beyond them. -/
theorem isSome_double?_largest : ∀ m ∈ [2 ^ 53 - 3, 2 ^ 53 - 2, 2 ^ 53 - 1], ∀ b negative : Bool,
    ((decimal ⟨b, m, 971⟩).double? negative).isSome = true := by
  decide +kernel

theorem isSome_double?_decimal {x : Binary64} (hx : x.IsFinite) (hmantissa : 0 < x.mantissa)
    (negative : Bool) : ((decimal x).double? negative).isSome = true := by
  by_cases hlargest : x.exponent = 971 ∧ 2 ^ 53 - 4 < x.mantissa
  · obtain ⟨b, m, e⟩ := x
    obtain ⟨rfl, hm⟩ := hlargest
    have hlt : m < 2 ^ 53 := hx.mantissa_lt
    have hgt : 2 ^ 53 - 4 < m := hm
    refine isSome_double?_largest m ?_ b negative
    simp only [List.mem_cons, List.not_mem_nil, or_false]
    omega
  · obtain ⟨hpos, hle⟩ := Binary64.bounds_shortest hmantissa hx.exponent_ge
    have hdigits := Decimal.isSignificand_toDigits hpos
    refine Decimal.double?_isSome (Decimal.natOfDigits_whole_lt hdigits) ?_ negative
    rw [Decimal.value_ofDigits hdigits.ne_nil, natOfDigits_toDigits]
    exact hle.trans (Binary64.ceiling_le_scaleLimit hx fun h => by omega)

/-- A text that is read as parts does not start with a minus sign of its own. -/
theorem Decimal.IsRead.number? {d : Decimal} {text : List Char} (h : d.IsRead text)
    (hd : ∀ negative, (d.double? negative).isSome = true) (negative : Bool) :
    ∃ y, ∀ rest, Follows rest →
      Json.number? ((if negative then ['-'] else []) ++ text ++ rest) = some (y, rest) := by
  obtain ⟨y, hy⟩ := Option.isSome_iff_exists.1 (hd negative)
  refine ⟨y, fun rest hrest => ?_⟩
  have hread := h negative rest hrest
  rw [hy, Option.map_some] at hread
  cases negative with
  | true => exact hread
  | false =>
    have hsign : ∀ cs, text ++ rest ≠ '-' :: cs := by
      intro cs heq
      rw [heq] at hread
      cases hread
    rw [if_neg Bool.false_ne_true, List.nil_append, Json.number?.eq_2 _ hsign]
    exact hread

/-- **The text of a double is read as a double**, whatever follows that can follow a value. -/
theorem number?_double {x : Binary64} (hx : x.IsFinite) :
    ∃ y, ∀ rest, Follows rest → number? (x.text.toList ++ rest) = some (y, rest) := by
  by_cases hzero : x.mantissa = 0
  · have hdigit : ∀ c ∈ ['0'], isDigit c = true := fun c => Decimal.isDigit_of_mem_zeros (n := 1)
    have hproper : (⟨['0'], ['0'], 0⟩ : Decimal).IsProper :=
      ⟨List.cons_ne_nil _ _, hdigit, fun _ => rfl, hdigit⟩
    have hread : (⟨['0'], ['0'], 0⟩ : Decimal).IsRead "0.0".toList :=
      hproper.isRead_point (List.cons_ne_nil _ _) rfl
    have htext : x.text.toList = (if x.negative then ['-'] else []) ++ "0.0".toList := by
      rw [Binary64.text, if_pos hzero]
      cases x.negative <;> rfl
    rw [htext]
    exact hread.number? (by decide +kernel) x.negative
  · have hmantissa := Nat.pos_of_ne_zero hzero
    have hdigits : (toString x.shortest.1).toList = Nat.toDigits 10 x.shortest.1 := Nat.toList_repr
    have hread : (decimal x).IsRead
        (Binary64.decimalText (toString x.shortest.1) x.shortest.2).toList := by
      rw [decimal, ← hdigits]
      apply Decimal.isRead_decimalText
      rw [hdigits]
      exact Decimal.isSignificand_toDigits (Binary64.bounds_shortest hmantissa hx.exponent_ge).1
    have htext : x.text.toList = (if x.negative then ['-'] else []) ++
        (Binary64.decimalText (toString x.shortest.1) x.shortest.2).toList := by
      rw [Binary64.text, if_neg hzero]
      cases x.negative <;> simp
    rw [htext]
    exact hread.number? (isSome_double?_decimal hx hmantissa) x.negative

/-! ### Numbers -/

/-- A number as JSON has them: an integer of 64 bits, or a double. -/
def IsNumber : JsonNumber → Prop
  | .int n => -2 ^ 63 ≤ n ∧ n < 2 ^ 64
  | .double x => x.IsFinite

theorem isNumber_of_isExact {x : JsonNumber} (hx : IsExact x) : IsNumber x := by
  obtain ⟨n, rfl, hn⟩ := hx
  exact hn

/-- What the text of a number is read as. -/
def rereadNumber (x : JsonNumber) : JsonNumber :=
  ((number? x.text.toList).map Prod.fst).getD x

/-- **The text of a number is read as a number**, whatever follows that can follow a value. -/
theorem number?_text_append {x : JsonNumber} (hx : IsNumber x) {rest : List Char}
    (h : Follows rest) : number? (x.text.toList ++ rest) = some (rereadNumber x, rest) := by
  obtain ⟨y, hy⟩ : ∃ y, ∀ rest, Follows rest → number? (x.text.toList ++ rest) = some (y, rest) := by
    cases x with
    | int n => exact ⟨.int n, fun rest => number?_text ⟨n, rfl, hx⟩⟩
    | double x => exact number?_double hx
  have halone := hy [] nofun
  rw [List.append_nil] at halone
  rw [hy rest h, rereadNumber, halone]
  rfl

/-- Integers are kept. -/
theorem rereadNumber_of_isExact {x : JsonNumber} (hx : IsExact x) : rereadNumber x = x := by
  have halone : number? (x.text.toList ++ []) = some (x, []) := number?_text hx nofun
  rw [List.append_nil] at halone
  rw [rereadNumber, halone]
  rfl

end MarkdownEdits.Json
