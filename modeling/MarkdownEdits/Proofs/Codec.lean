import Mathlib.Algebra.Group.Nat.Defs
import MarkdownEdits.Base64.Decode
import MarkdownEdits.Proofs.Sequencing

/-!
# Base64 is read as it is written

The decoder accepts what the encoder writes and nothing else, so that every byte string has one
written form. Symbols are seen as the values they stand for: a text is in form when it is the
symbols of full groups of values, and behind them those of a last group with its padding.
-/

namespace MarkdownEdits.Base64

/-! ### Symbols -/

theorem value?_symbol {v : Nat} (h : v < 64) : value? (symbol v) = some v := by
  have hall : ∀ v < 64, value? (symbol v) = some v := by decide
  exact hall v h

/-- A value is that of one symbol. -/
theorem eq_symbol_of_value? {b : UInt8} {v : Nat} (h : value? b = some v) :
    v < 64 ∧ b = symbol v := by
  have hall : ∀ n < 256, ∀ v ∈ value? (UInt8.ofNat n), v < 64 ∧ UInt8.ofNat n = symbol v := by
    decide +kernel
  have hb := hall b.toNat b.toNat_lt
  rw [UInt8.ofNat_toNat] at hb
  exact hb v h

theorem symbol_ne_pad {v : Nat} (h : v < 64) : symbol v ≠ pad := by
  intro hpad
  have hvalue := value?_symbol h
  rw [hpad] at hvalue
  cases hvalue

theorem symbol_inj {v w : Nat} (hv : v < 64) (hw : w < 64) (h : symbol v = symbol w) : v = w := by
  have hvalue := value?_symbol hv
  rw [h, value?_symbol hw] at hvalue
  exact (Option.some.inj hvalue).symm

/-- Values that one symbol can stand for. -/
def AreValues (vs : List Nat) : Prop := ∀ v ∈ vs, v < 64

theorem areValues_cons {v : Nat} {vs : List Nat} : AreValues (v :: vs) ↔ v < 64 ∧ AreValues vs :=
  List.forall_mem_cons

theorem values_eq_ok_iff {offset : Nat} {symbols : List UInt8} {vs : List Nat} :
    values offset symbols = .ok vs ↔ AreValues vs ∧ symbols = vs.map symbol := by
  induction symbols generalizing offset vs with
  | nil =>
    cases vs with
    | nil => exact ⟨fun _ => ⟨nofun, rfl⟩, fun _ => rfl⟩
    | cons v vs => exact ⟨nofun, fun h => by cases h.2⟩
  | cons b symbols ih =>
    cases hb : value? b with
    | none =>
      simp only [values, hb]
      refine ⟨nofun, ?_⟩
      rintro ⟨hvs, hsymbols⟩
      cases vs with
      | nil => cases hsymbols
      | cons v vs =>
        obtain ⟨rfl, -⟩ := List.cons.inj hsymbols
        rw [value?_symbol (areValues_cons.1 hvs).1] at hb
        cases hb
    | some v =>
      obtain ⟨hv, rfl⟩ := eq_symbol_of_value? hb
      have hmap : values offset (symbol v :: symbols) =
          (values (offset + 1) symbols).map (v :: ·) := by rw [values, hb]
      rw [hmap, Except.map_eq_ok_iff]
      constructor
      · rintro ⟨rest, hrest, rfl⟩
        obtain ⟨hvalues, rfl⟩ := ih.1 hrest
        exact ⟨areValues_cons.2 ⟨hv, hvalues⟩, rfl⟩
      · rintro ⟨hvs, hsymbols⟩
        cases vs with
        | nil => cases hsymbols
        | cons w vs =>
          obtain ⟨hw, hws⟩ := areValues_cons.1 hvs
          obtain ⟨hsymbol, hrest⟩ := List.cons.inj hsymbols
          obtain rfl := symbol_inj hv hw hsymbol
          exact ⟨vs, ih.2 ⟨hws, hrest⟩, rfl⟩

/-! ### Full groups -/

theorem toNat_toUInt8_of_lt {n : Nat} (h : n < 256) : n.toUInt8.toNat = n :=
  UInt8.toNat_ofNat_of_lt' h

/-- The three bytes of a number of 24 bits are written as its four parts of six bits. -/
theorem encode_bytes {n : Nat} (h : n < 16777216) (rest : List UInt8) :
    encode ((n / 65536).toUInt8 :: (n / 256 % 256).toUInt8 :: (n % 256).toUInt8 :: rest) =
      symbol (n / 262144) :: symbol (n / 4096 % 64) :: symbol (n / 64 % 64) :: symbol (n % 64) ::
        encode rest := by
  have hnumber : (n / 65536 * 256 + n / 256 % 256) * 256 + n % 256 = n := by omega
  rw [encode, toNat_toUInt8_of_lt (by omega), toNat_toUInt8_of_lt (by omega),
    toNat_toUInt8_of_lt (by omega), hnumber]

/-- Bytes that fill groups are written without padding, ahead of all that follows. -/
theorem encode_append {bytes : List UInt8} (h : bytes.length % 3 = 0) (more : List UInt8) :
    encode (bytes ++ more) = encode bytes ++ encode more := by
  fun_induction encode bytes with
  | case1 => rfl
  | case2 x n => simp at h
  | case3 x y n => simp at h
  | case4 x y z rest n ih =>
    have hrest : rest.length % 3 = 0 := by
      simp only [List.length_cons] at h
      omega
    rw [List.cons_append, List.cons_append, List.cons_append, encode, ih hrest]
    rfl

/-- Values that fill groups are written back as their symbols. -/
theorem encode_joinGroups {vs : List Nat} (hvs : AreValues vs) (h : vs.length % 4 = 0) :
    encode (joinGroups vs) = vs.map symbol ∧ (joinGroups vs).length % 3 = 0 := by
  fun_induction joinGroups vs with
  | case1 a b c d rest n ih =>
    simp only [areValues_cons] at hvs
    obtain ⟨ha, hb, hc, hd, hrest⟩ := hvs
    have hlength : rest.length % 4 = 0 := by
      simp only [List.length_cons] at h
      omega
    obtain ⟨hencode, hjoin⟩ := ih hrest hlength
    have hn : n < 16777216 := by omega
    have hparts : n / 262144 = a ∧ n / 4096 % 64 = b ∧ n / 64 % 64 = c ∧ n % 64 = d := by omega
    refine ⟨?_, ?_⟩
    · rw [encode_bytes hn, hparts.1, hparts.2.1, hparts.2.2.1, hparts.2.2.2, hencode]
      rfl
    · simp only [List.length_cons]
      omega
  | case2 vs hshort =>
    match vs with
    | [] => exact ⟨rfl, rfl⟩
    | [a] => simp at h
    | [a, b] => simp at h
    | [a, b, c] => simp at h
    | a :: b :: c :: d :: rest => exact absurd rfl (hshort a b c d rest)

/-- Bytes that fill groups are the groups of some values. -/
theorem exists_joinGroups {bytes : List UInt8} (h : bytes.length % 3 = 0) :
    ∃ vs, AreValues vs ∧ vs.length * 3 = bytes.length * 4 ∧ joinGroups vs = bytes := by
  fun_induction encode bytes with
  | case1 => exact ⟨[], nofun, rfl, rfl⟩
  | case2 x n => simp at h
  | case3 x y n => simp at h
  | case4 x y z rest n ih =>
    have hrest : rest.length % 3 = 0 := by
      simp only [List.length_cons] at h
      omega
    obtain ⟨vs, hvs, hlength, hjoin⟩ := ih hrest
    have hx : x.toNat < 256 := x.toNat_lt
    have hy : y.toNat < 256 := y.toNat_lt
    have hz : z.toNat < 256 := z.toNat_lt
    refine ⟨n / 262144 :: n / 4096 % 64 :: n / 64 % 64 :: n % 64 :: vs, ?_, ?_, ?_⟩
    · simp only [areValues_cons]
      exact ⟨by omega, by omega, by omega, by omega, hvs⟩
    · simp only [List.length_cons]
      omega
    · have hnumber :
          ((n / 262144 * 64 + n / 4096 % 64) * 64 + n / 64 % 64) * 64 + n % 64 = n := by omega
      have hparts : n / 65536 = x.toNat ∧ n / 256 % 256 = y.toNat ∧ n % 256 = z.toNat := by omega
      rw [joinGroups, hnumber, hparts.1, hparts.2.1, hparts.2.2, hjoin]
      simp only [Nat.toUInt8, UInt8.ofNat_toNat]

/-! ### The last group -/

/-- Symbols end where padding begins. -/
theorem takeWhile_symbols {vs : List Nat} (hvs : AreValues vs) (padding : Nat) :
    (vs.map symbol ++ List.replicate padding pad).takeWhile (· != pad) = vs.map symbol ∧
      (vs.map symbol ++ List.replicate padding pad).dropWhile (· != pad) =
        List.replicate padding pad := by
  have hsymbols : ∀ b ∈ vs.map symbol, (b != pad) = true := by
    intro b hb
    obtain ⟨v, hv, rfl⟩ := List.mem_map.1 hb
    exact bne_iff_ne.2 (symbol_ne_pad (hvs v hv))
  rw [List.takeWhile_append_of_pos hsymbols, List.dropWhile_append_of_pos hsymbols]
  cases padding with
  | zero => exact ⟨List.append_nil _, rfl⟩
  | succ padding =>
    exact ⟨List.append_nil _, rfl⟩

/-- Padding is in place when it is nothing but padding, with two symbols ahead of it. -/
theorem padding_inPlace_iff (count : Nat) (padding : List UInt8) :
    (!padding.isEmpty && (count < 2 || padding.any (· != pad))) = false ↔
      (padding.length ≠ 0 → 2 ≤ count) ∧ padding = List.replicate padding.length pad := by
  cases padding with
  | nil => simp
  | cons b padding =>
    have hlength : (b :: padding).length ≠ 0 := Nat.succ_ne_zero _
    rw [List.isEmpty_cons, Bool.not_false, Bool.true_and, Bool.or_eq_false_iff,
      decide_eq_false_iff_not, Nat.not_lt, List.any_eq_false, forall_prop_of_true hlength,
      List.eq_replicate_iff, and_iff_right rfl]
    refine and_congr_right fun _ => forall₂_congr fun b' _ => ?_
    rw [bne_iff_ne, Decidable.not_not]

/-- A last group is symbols and then padding, which has at least two symbols ahead of it. -/
theorem splitLast_eq_ok_iff {offset padding : Nat} {group : List UInt8} {vs : List Nat} :
    splitLast offset group = .ok (vs, padding) ↔
      AreValues vs ∧ (padding ≠ 0 → 2 ≤ vs.length) ∧
        group = vs.map symbol ++ List.replicate padding pad := by
  rw [splitLast, Except.bind_eq_ok_iff]
  constructor
  · rintro ⟨values, hvalues, h⟩
    obtain ⟨hvs, hsymbols⟩ := values_eq_ok_iff.1 hvalues
    simp only at h
    split at h
    · cases h
    · next hplaced =>
      obtain ⟨rfl, rfl⟩ := Prod.mk.inj (Except.ok.inj h)
      rw [Bool.not_eq_true, padding_inPlace_iff, hsymbols, List.length_map] at hplaced
      refine ⟨hvs, hplaced.1, ?_⟩
      rw [← hplaced.2, ← hsymbols, List.takeWhile_append_dropWhile]
  · rintro ⟨hvs, hlength, rfl⟩
    obtain ⟨htake, hdrop⟩ := takeWhile_symbols hvs padding
    have hplaced := (padding_inPlace_iff (vs.map symbol).length (List.replicate padding pad)).2
      ⟨by rwa [List.length_replicate, List.length_map], by rw [List.length_replicate]⟩
    refine ⟨vs, values_eq_ok_iff.2 ⟨hvs, htake⟩, ?_⟩
    simp only [htake, hdrop, hplaced, Bool.false_eq_true, if_false, List.length_replicate]
    rfl

/-- The bytes of a last group that is in form. -/
theorem decodeLast_eq_ok_iff {offset : Nat} {group bytes : List UInt8} :
    decodeLast offset group = .ok bytes ↔
      ∃ vs, AreValues vs ∧ 2 ≤ vs.length ∧ vs.length ≤ 4 ∧
        group = vs.map symbol ++ List.replicate (4 - vs.length) pad ∧ joinLast vs = (bytes, 0) := by
  rw [decodeLast, Except.bind_eq_ok_iff]
  constructor
  · rintro ⟨⟨vs, padding⟩, hsplit, h⟩
    obtain ⟨hvs, -, hgroup⟩ := splitLast_eq_ok_iff.1 hsplit
    simp only at h
    split at h
    · cases h
    · split at h
      · cases h
      · split at h
        · cases h
        · next hlength hfull hleft =>
          have hpadding : padding = 4 - vs.length := by omega
          refine ⟨vs, hvs, by omega, by omega, hpadding ▸ hgroup, ?_⟩
          rw [← Except.ok.inj h, ← Decidable.not_not.1 hleft]
  · rintro ⟨vs, hvs, htwo, hfour, hgroup, hjoin⟩
    refine ⟨(vs, 4 - vs.length), splitLast_eq_ok_iff.2 ⟨hvs, fun _ => htwo, hgroup⟩, ?_⟩
    have hfull : vs.length + (4 - vs.length) = 4 := by omega
    have hlength : ¬ vs.length < 2 := by omega
    simp only [hjoin, hfull, hlength, ne_eq, not_true_eq_false, if_false]
    rfl

/-- A last group that leaves no bits over is written back as it was read. -/
theorem encode_joinLast {vs : List Nat} {bytes : List UInt8} (hvs : AreValues vs)
    (htwo : 2 ≤ vs.length) (hfour : vs.length ≤ 4) (hjoin : joinLast vs = (bytes, 0)) :
    encode bytes = vs.map symbol ++ List.replicate (4 - vs.length) pad := by
  match vs with
  | [] => simp at htwo
  | [a] => simp at htwo
  | [a, b] =>
    simp only [areValues_cons] at hvs
    obtain ⟨rfl, hleft⟩ := Prod.mk.inj hjoin
    have hnumber : (a * 64 + b) / 16 * 16 = a * 64 + b := by omega
    have hparts : (a * 64 + b) / 64 = a ∧ (a * 64 + b) % 64 = b := by omega
    rw [encode, toNat_toUInt8_of_lt (by omega), hnumber, hparts.1, hparts.2]
    rfl
  | [a, b, c] =>
    simp only [areValues_cons] at hvs
    obtain ⟨rfl, hleft⟩ := Prod.mk.inj hjoin
    have hnumber : ((((a * 64 + b) * 64 + c) / 1024) * 256 +
        ((a * 64 + b) * 64 + c) / 4 % 256) * 4 = (a * 64 + b) * 64 + c := by omega
    have hparts : ((a * 64 + b) * 64 + c) / 4096 = a ∧ ((a * 64 + b) * 64 + c) / 64 % 64 = b ∧
        ((a * 64 + b) * 64 + c) % 64 = c := by omega
    rw [encode, toNat_toUInt8_of_lt (by omega), toNat_toUInt8_of_lt (by omega), hnumber, hparts.1,
      hparts.2.1, hparts.2.2]
    rfl
  | [a, b, c, d] =>
    obtain ⟨rfl, -⟩ := Prod.mk.inj hjoin
    exact (encode_joinGroups hvs (Nat.mod_self 4)).1.trans (List.append_nil _).symm
  | a :: b :: c :: d :: e :: rest =>
    simp only [List.length_cons] at hfour
    omega

theorem joinLast_of_length_eq_four {vs : List Nat} (h : vs.length = 4) :
    joinLast vs = (joinGroups vs, 0) := by
  unfold joinLast
  split
  · cases h
  · cases h
  · rfl

/-- One to three bytes are a last group. -/
theorem exists_joinLast {bytes : List UInt8} (hne : bytes ≠ []) (hthree : bytes.length ≤ 3) :
    ∃ vs, AreValues vs ∧ 2 ≤ vs.length ∧ vs.length ≤ 4 ∧ joinLast vs = (bytes, 0) := by
  match bytes with
  | [] => exact absurd rfl hne
  | [x] =>
    have hx : x.toNat < 256 := x.toNat_lt
    refine ⟨[x.toNat * 16 / 64, x.toNat * 16 % 64], ?_, by simp, by simp, ?_⟩
    · simp only [areValues_cons]
      exact ⟨by omega, by omega, nofun⟩
    · have hnumber : x.toNat * 16 / 64 * 64 + x.toNat * 16 % 64 = x.toNat * 16 := by omega
      rw [joinLast, hnumber]
      simp
  | [x, y] =>
    have hx : x.toNat < 256 := x.toNat_lt
    have hy : y.toNat < 256 := y.toNat_lt
    let n := (x.toNat * 256 + y.toNat) * 4
    refine ⟨[n / 4096, n / 64 % 64, n % 64], ?_, by simp, by simp, ?_⟩
    · simp only [areValues_cons]
      exact ⟨by omega, by omega, by omega, nofun⟩
    · have hnumber : (n / 4096 * 64 + n / 64 % 64) * 64 + n % 64 = n := by omega
      have hparts : n / 1024 = x.toNat ∧ n / 4 % 256 = y.toNat ∧ n % 4 = 0 := by omega
      rw [joinLast, hnumber, hparts.1, hparts.2.1, hparts.2.2]
      simp
  | [x, y, z] =>
    have hfull : [x, y, z].length % 3 = 0 := Nat.mod_self 3
    obtain ⟨vs, hvs, hlength, hjoin⟩ := exists_joinGroups hfull
    have hfour : vs.length = 4 := by
      simp only [List.length_cons, List.length_nil] at hlength
      omega
    exact ⟨vs, hvs, by omega, by omega, by rw [joinLast_of_length_eq_four hfour, hjoin]⟩
  | x :: y :: z :: w :: rest =>
    simp only [List.length_cons] at hthree
    omega

/-! ### Groups with padding -/

/-- The symbols of full groups of values, and behind them those of a last group with the padding
that fills it up. -/
structure InGroups (symbols : List UInt8) (full last : List Nat) : Prop where
  areValues_full : AreValues full
  areValues_last : AreValues last
  length_full : full.length % 4 = 0
  two_le_length : 2 ≤ last.length
  length_le_four : last.length ≤ 4
  symbols_eq : symbols =
    full.map symbol ++ (last.map symbol ++ List.replicate (4 - last.length) pad)

/-- The bits that a last group leaves over are the lowest of its last value, two for each
padding. -/
theorem left_joinLast {init : List Nat} {v : Nat} (hone : 1 ≤ init.length)
    (hthree : init.length ≤ 3) : (joinLast (init ++ [v])).2 = v % 4 ^ (3 - init.length) := by
  match init with
  | [] => cases hone
  | [a] =>
    show (a * 64 + v) % 16 = v % 16
    omega
  | [a, b] =>
    show ((a * 64 + b) * 64 + v) % 4 = v % 4
    omega
  | [a, b, c] => exact (Nat.mod_one v).symm
  | a :: b :: c :: d :: rest =>
    simp only [List.length_cons] at hthree
    omega

/-- A last group that padding fills up is read, unless bits are left over in its last symbol. -/
theorem decodeLast_concat {offset : Nat} {init : List Nat} {v : Nat}
    (hvs : AreValues (init ++ [v])) (hone : 1 ≤ init.length) (hthree : init.length ≤ 3) :
    decodeLast offset ((init ++ [v]).map symbol ++ List.replicate (3 - init.length) pad) =
      if v % 4 ^ (3 - init.length) = 0 then .ok (joinLast (init ++ [v])).1
      else .error (.invalidLastSymbol (symbol v) (offset + init.length)) := by
  have hlength : (init ++ [v]).length = init.length + 1 := List.length_append
  have hsplit : splitLast offset
      ((init ++ [v]).map symbol ++ List.replicate (3 - init.length) pad) =
        .ok (init ++ [v], 3 - init.length) :=
    splitLast_eq_ok_iff.2 ⟨hvs, fun _ => by omega, rfl⟩
  have hshort : ¬ init.length + 1 < 2 := by omega
  have hfull : init.length + 1 + (3 - init.length) = 4 := by omega
  have hsymbol : ((init ++ [v]).map symbol ++ List.replicate (3 - init.length) pad)[init.length]? =
      some (symbol v) := by
    rw [List.map_append, List.append_assoc,
      List.getElem?_append_right (Nat.le_of_eq (List.length_map _)), List.length_map, Nat.sub_self]
    rfl
  rw [decodeLast, hsplit]
  simp only [bind, Except.bind, hlength, hshort, hfull, Nat.add_sub_cancel, ← Nat.add_assoc,
    hsymbol, left_joinLast hone hthree, if_false, ne_eq, not_true_eq_false, Option.getD_some,
    ite_not]
  rfl

namespace InGroups

variable {symbols : List UInt8} {full last init : List Nat} {v : Nat}

theorem length_symbols (h : InGroups symbols full last) : symbols.length = full.length + 4 := by
  have hfour := h.length_le_four
  rw [h.symbols_eq, List.length_append, List.length_append, List.length_map, List.length_map,
    List.length_replicate]
  omega

/-- The last group has a last value. -/
theorem exists_concat (h : InGroups symbols full last) :
    ∃ init v, last = init ++ [v] ∧ 1 ≤ init.length ∧ init.length ≤ 3 := by
  have htwo := h.two_le_length
  have hfour := h.length_le_four
  obtain rfl | ⟨init, v, rfl⟩ := List.eq_nil_or_concat last
  · cases htwo
  · rw [List.length_concat] at htwo hfour
    exact ⟨init, v, List.concat_eq_append, by omega, by omega⟩

/-- All that can go wrong with groups is in the last one. -/
theorem decode_eq (h : InGroups symbols full last) :
    decode symbols =
      (decodeLast full.length (last.map symbol ++ List.replicate (4 - last.length) pad)).map
        (joinGroups full ++ ·) := by
  have hgroups := h.length_full
  have hlength := h.length_symbols
  have hne : symbols ≠ [] := by
    rw [← List.length_pos_iff]
    omega
  have hoffset : (symbols.length - 1) / 4 * 4 = full.length := by omega
  have hmod : ¬ symbols.length % 4 = 1 := by omega
  have htake : symbols.take full.length = full.map symbol := by
    rw [h.symbols_eq, List.take_left' (List.length_map _)]
  have hdrop : symbols.drop full.length =
      last.map symbol ++ List.replicate (4 - last.length) pad := by
    rw [h.symbols_eq, List.drop_left' (List.length_map _)]
  have hvalues : values 0 (full.map symbol) = .ok full :=
    values_eq_ok_iff.2 ⟨h.areValues_full, rfl⟩
  unfold decode
  rw [List.getLast?_eq_some_getLast hne]
  simp only [hmod, false_and, if_false, hoffset, htake, hdrop, hvalues]
  rfl

/-- **Groups are decoded, unless bits are left over in the last symbol.** -/
theorem decode_concat (h : InGroups symbols full (init ++ [v])) :
    decode symbols =
      if v % 4 ^ (3 - init.length) = 0 then .ok (joinGroups full ++ (joinLast (init ++ [v])).1)
      else .error (.invalidLastSymbol (symbol v) (full.length + init.length)) := by
  have htwo := h.two_le_length
  have hfour := h.length_le_four
  have hlength : (init ++ [v]).length = init.length + 1 := List.length_append
  have hpadding : 4 - (init ++ [v]).length = 3 - init.length := by omega
  rw [h.decode_eq, hpadding, decodeLast_concat h.areValues_last (by omega) (by omega)]
  split <;> rfl

end InGroups

/-! ### Written texts -/

/-- The values of a text in form: full groups, and a last group that leaves no bits over. -/
structure Written where
  full : List Nat
  last : List Nat
  areValues_full : AreValues full
  areValues_last : AreValues last
  length_full : full.length % 4 = 0
  two_le_length : 2 ≤ last.length
  length_le_four : last.length ≤ 4
  noneLeft : (joinLast last).2 = 0

namespace Written

def symbols (w : Written) : List UInt8 :=
  w.full.map symbol ++ (w.last.map symbol ++ List.replicate (4 - w.last.length) pad)

def bytes (w : Written) : List UInt8 := joinGroups w.full ++ (joinLast w.last).1

variable (w : Written)

theorem joinLast_eq : joinLast w.last = ((joinLast w.last).1, 0) := Prod.ext rfl w.noneLeft

theorem encode_bytes : encode w.bytes = w.symbols := by
  obtain ⟨hfull, hlength⟩ := encode_joinGroups w.areValues_full w.length_full
  rw [bytes, encode_append hlength, hfull,
    encode_joinLast w.areValues_last w.two_le_length w.length_le_four w.joinLast_eq, symbols]

theorem inGroups : InGroups w.symbols w.full w.last :=
  ⟨w.areValues_full, w.areValues_last, w.length_full, w.two_le_length, w.length_le_four, rfl⟩

theorem symbols_ne_nil : w.symbols ≠ [] := by
  rw [← List.length_pos_iff, w.inGroups.length_symbols]
  omega

theorem of_mem_symbols {b : UInt8} (h : b ∈ w.symbols) : (∃ v < 64, symbol v = b) ∨ b = pad := by
  rw [symbols, List.mem_append, List.mem_append, List.mem_map, List.mem_map] at h
  obtain ⟨v, hv, rfl⟩ | ⟨v, hv, rfl⟩ | hpad := h
  · exact .inl ⟨v, w.areValues_full v hv, rfl⟩
  · exact .inl ⟨v, w.areValues_last v hv, rfl⟩
  · exact .inr (List.eq_of_mem_replicate hpad)

theorem decode_symbols : decode w.symbols = .ok w.bytes := by
  rw [w.inGroups.decode_eq, decodeLast_eq_ok_iff.2 ⟨w.last, w.areValues_last, w.two_le_length,
    w.length_le_four, rfl, w.joinLast_eq⟩]
  rfl

end Written

/-- Bytes are groups of three, and behind them a last group of one to three. -/
theorem exists_last_group {bytes : List UInt8} (h : bytes ≠ []) :
    ∃ full last, bytes = full ++ last ∧ full.length % 3 = 0 ∧ last ≠ [] ∧ last.length ≤ 3 := by
  have hpos := List.length_pos_iff.2 h
  refine ⟨bytes.take ((bytes.length - 1) / 3 * 3), bytes.drop ((bytes.length - 1) / 3 * 3),
    (List.take_append_drop _ _).symm, ?_, ?_, ?_⟩
  · rw [List.length_take]
    omega
  · rw [Ne, List.drop_eq_nil_iff]
    omega
  · rw [List.length_drop]
    omega

/-- All bytes are those of a written text. -/
theorem exists_written {bytes : List UInt8} (h : bytes ≠ []) : ∃ w : Written, w.bytes = bytes := by
  obtain ⟨full, last, rfl, hfull, hlast, hthree⟩ := exists_last_group h
  obtain ⟨vs, hvs, hlength, hjoin⟩ := exists_joinGroups hfull
  obtain ⟨ws, hws, htwo, hfour, hjoinLast⟩ := exists_joinLast hlast hthree
  refine ⟨⟨vs, ws, hvs, hws, by omega, htwo, hfour, by rw [hjoinLast]⟩, ?_⟩
  rw [Written.bytes, hjoin, hjoinLast]

theorem encode_ne_nil {bytes : List UInt8} (h : bytes ≠ []) : encode bytes ≠ [] := by
  obtain ⟨w, rfl⟩ := exists_written h
  rw [w.encode_bytes]
  exact w.symbols_ne_nil

/-- What is decoded is a written text. -/
theorem exists_written_of_decode {symbols bytes : List UInt8} (h : decode symbols = .ok bytes)
    (hne : symbols ≠ []) : ∃ w : Written, w.symbols = symbols ∧ w.bytes = bytes := by
  unfold decode at h
  split at h
  · next hlast => exact absurd (List.getLast?_eq_none_iff.1 hlast) hne
  · simp only at h
    split at h
    · cases h
    · obtain ⟨full, hfull, h⟩ := Except.bind_eq_ok_iff.1 h
      obtain ⟨rest, hrest, h⟩ := Except.bind_eq_ok_iff.1 h
      obtain ⟨hvalues, htake⟩ := values_eq_ok_iff.1 hfull
      obtain ⟨last, hlastValues, htwo, hfour, hdrop, hjoin⟩ := decodeLast_eq_ok_iff.1 hrest
      have hlength : full.length % 4 = 0 := by
        have hlengths := congrArg List.length htake
        rw [List.length_take, List.length_map] at hlengths
        omega
      refine ⟨⟨full, last, hvalues, hlastValues, hlength, htwo, hfour, by rw [hjoin]⟩, ?_, ?_⟩
      · rw [Written.symbols, ← htake, ← hdrop, List.take_append_drop]
      · rw [← Except.ok.inj h]
        show joinGroups full ++ (joinLast last).1 = _
        rw [hjoin]

/-- **The decoder accepts what the encoder writes, and nothing else.** -/
theorem decode_eq_ok_iff {symbols bytes : List UInt8} :
    decode symbols = .ok bytes ↔ symbols = encode bytes := by
  constructor
  · intro h
    by_cases hne : symbols = []
    · subst hne
      rw [← Except.ok.inj h]
      rfl
    · obtain ⟨w, rfl, rfl⟩ := exists_written_of_decode h hne
      exact w.encode_bytes.symm
  · rintro rfl
    by_cases hne : bytes = []
    · subst hne
      rfl
    · obtain ⟨w, rfl⟩ := exists_written hne
      rw [w.encode_bytes, w.decode_symbols]

end MarkdownEdits.Base64
