import MarkdownEdits.Proofs.JsonScalars

/-!
# Integers read from texts

A text may hold integers of any size. What is read as an integer fits into 64 bits, since a larger
one is read as a double, and so does every integer inside a value (`inRange_of_parse?`).
-/

namespace MarkdownEdits.Json

/-! ### Values in range -/

mutual

/-- Every integer in the value fits into 64 bits. -/
def InRange : Json → Prop
  | .number x => (∃ d, x = .double d) ∨ IsExact x
  | .array vs => InRangeItems vs
  | .object ms => InRangeMembers ms
  | _ => True

def InRangeItems : List Json → Prop
  | [] => True
  | v :: vs => v.InRange ∧ InRangeItems vs

def InRangeMembers : List (String × Json) → Prop
  | [] => True
  | (_, v) :: ms => v.InRange ∧ InRangeMembers ms

end

theorem inRangeItems_iff {vs : List Json} : InRangeItems vs ↔ ∀ v ∈ vs, v.InRange := by
  induction vs with
  | nil => simp [InRangeItems]
  | cons v vs ih => simp [InRangeItems, ih]

theorem inRangeMembers_iff {ms : List (String × Json)} :
    InRangeMembers ms ↔ ∀ m ∈ ms, m.2.InRange := by
  induction ms with
  | nil => simp [InRangeMembers]
  | cons m ms ih => simp [InRangeMembers, ih]

/-- A natural number in range. -/
theorem InRange.lt_of_ofNat {n : Nat} (h : (ofNat n).InRange) : n < 2 ^ 64 := by
  obtain ⟨d, hd⟩ | ⟨k, hk, -, hlt⟩ := h
  · cases hd
  · cases hk
    omega

/-- The members of an object in range. -/
theorem InRange.member? {v w : Json} {name : String} (h : v.InRange)
    (hw : v.member? name = some w) : w.InRange := by
  cases v with
  | object ms =>
    obtain ⟨before, behind, rfl, -⟩ := List.lookup_eq_some_iff.1 (hw : ms.lookup name = some w)
    exact inRangeMembers_iff.1 h (name, w) (by simp)
  | _ => cases hw

/-! ### What is read -/

theorem inRange_of_integer? {negative : Bool} {n : Nat} {x : JsonNumber}
    (h : integer? negative n = some x) : IsExact x := by
  unfold integer? at h
  split at h <;> split at h <;> cases h
  · exact ⟨-n, rfl, by omega, by omega⟩
  · exact ⟨n, rfl, by omega, by omega⟩

/-- A number with an exponent is a double, even if the exponent is zero. -/
theorem inRange_of_exponent {negative : Bool} {whole fraction rest : List Char} {x : JsonNumber}
    {found : Option (Int × List Char)}
    (h : (do
      let (exponent, rest) ← found
      let n ← double? negative whole fraction exponent
      return (n, rest)) = some (x, rest)) : (number x).InRange := by
  obtain ⟨⟨exponent, tail⟩, -, h⟩ := Option.bind_eq_some_iff.1 h
  obtain ⟨y, hy, h⟩ := Option.bind_eq_some_iff.1 h
  cases h
  obtain ⟨d, -, hd⟩ := Option.map_eq_some_iff.1 hy
  exact .inl ⟨_, hd.symm⟩

/-- Only a number without a fraction and an exponent is tried as an integer. -/
theorem inRange_of_magnitude? {negative : Bool} {cs rest : List Char} {x : JsonNumber}
    (h : magnitude? negative cs = some (x, rest)) : (number x).InRange := by
  unfold magnitude? at h
  dsimp only at h
  split at h
  · cases h
  split at h
  · split at h
    · cases h
    · exact inRange_of_exponent h
  · exact inRange_of_exponent h
  · exact inRange_of_exponent h
  · obtain ⟨y, hy, h⟩ := Option.bind_eq_some_iff.1 h
    cases h
    rw [Option.orElse_eq_or, Option.or_eq_some_iff] at hy
    obtain hinteger | ⟨-, hdouble⟩ := hy
    · exact .inr (inRange_of_integer? hinteger)
    · obtain ⟨d, -, hd⟩ := Option.map_eq_some_iff.1 hdouble
      exact .inl ⟨_, hd.symm⟩

theorem inRange_of_scalar? {cs rest : List Char} {v : Json} (h : scalar? cs = some (v, rest)) :
    v.InRange := by
  unfold scalar? at h
  split at h
  · cases h; trivial
  · cases h; trivial
  · cases h; trivial
  · obtain ⟨_, -, h⟩ := Option.map_eq_some_iff.1 h
    cases h
    trivial
  · obtain ⟨⟨x, tail⟩, hx, h⟩ := Option.map_eq_some_iff.1 h
    cases h
    unfold number? at hx
    split at hx
    · exact inRange_of_magnitude? hx
    · exact inRange_of_magnitude? hx

section Items

variable {α : Type} {item : List Char → Option (α × List Char)} {close : Char} {P : α → Prop}

/-- What holds of every item that can be read holds of all items read in a row. -/
theorem forall_of_sequence (hitem : ∀ cs a rest, item cs = some (a, rest) → P a) {fuel : Nat}
    {cs rest : List Char} {as : List α} (h : sequence item close fuel cs = some (as, rest)) :
    ∀ a ∈ as, P a := by
  induction fuel generalizing cs as rest with
  | zero => cases h
  | succ fuel ih =>
    obtain ⟨⟨a, tail⟩, ha, h⟩ := Option.bind_eq_some_iff.1 h
    dsimp only at h
    split at h
    · obtain ⟨⟨more, tail'⟩, hmore, h⟩ := Option.bind_eq_some_iff.1 h
      cases h
      exact List.forall_mem_cons.2 ⟨hitem _ _ _ ha, ih hmore⟩
    · split at h
      · cases h
        exact List.forall_mem_singleton.2 (hitem _ _ _ ha)
      · cases h
    · cases h

theorem forall_of_delimited (hitem : ∀ cs a rest, item cs = some (a, rest) → P a)
    {cs rest : List Char} {as : List α} (h : delimited item close cs = some (as, rest)) :
    ∀ a ∈ as, P a := by
  unfold delimited at h
  split at h
  · cases h
  · split at h
    · cases h
      exact List.forall_mem_nil _
    · exact forall_of_sequence hitem h

end Items

theorem of_namedValue {value : List Char → Option (Json × List Char)} {P : Json → Prop}
    (hvalue : ∀ cs v rest, value cs = some (v, rest) → P v) {cs rest : List Char}
    {m : String × Json} (h : namedValue value cs = some (m, rest)) : P m.2 := by
  unfold namedValue at h
  split at h
  · obtain ⟨⟨name, tail⟩, -, h⟩ := Option.bind_eq_some_iff.1 h
    dsimp only at h
    split at h
    · obtain ⟨⟨v, tail'⟩, hv, h⟩ := Option.bind_eq_some_iff.1 h
      cases h
      exact hvalue _ _ _ hv
    · cases h
  · cases h

theorem forall_of_insertMember {P : Json → Prop} {name : String} {v : Json} (hv : P v)
    {ms : List (String × Json)} (h : ∀ m ∈ ms, P m.2) : ∀ m ∈ insertMember name v ms, P m.2 := by
  induction ms with
  | nil => exact List.forall_mem_singleton.2 hv
  | cons m ms ih =>
    obtain ⟨hm, hms⟩ := List.forall_mem_cons.1 h
    rw [insertMember]
    split
    · exact List.forall_mem_cons.2 ⟨hv, h⟩
    · split
      · exact List.forall_mem_cons.2 ⟨hv, hms⟩
      · exact List.forall_mem_cons.2 ⟨hm, ih hms⟩

/-- Sorting adds no member. -/
theorem forall_of_sortMembers {P : Json → Prop} {ms : List (String × Json)}
    (h : ∀ m ∈ ms, P m.2) : ∀ m ∈ sortMembers ms, P m.2 := by
  have hfold : ∀ sorted : List (String × Json), (∀ m ∈ sorted, P m.2) →
      ∀ m ∈ ms.foldl (fun sorted m => insertMember m.1 m.2 sorted) sorted, P m.2 := by
    induction ms with
    | nil => exact fun _ hsorted => hsorted
    | cons m ms ih =>
      intro sorted hsorted
      obtain ⟨hm, hms⟩ := List.forall_mem_cons.1 h
      exact ih hms _ (forall_of_insertMember hm hsorted)
  exact hfold [] (List.forall_mem_nil _)

theorem inRange_of_value? {depth : Nat} {cs rest : List Char} {v : Json}
    (h : value? depth cs = some (v, rest)) : v.InRange := by
  induction depth generalizing cs rest v with
  | zero => exact inRange_of_scalar? h
  | succ depth ih =>
    unfold value? at h
    split at h
    · obtain ⟨⟨vs, tail⟩, hvs, h⟩ := Option.map_eq_some_iff.1 h
      cases h
      exact inRangeItems_iff.2 (forall_of_delimited (fun _ _ _ => ih) hvs)
    · obtain ⟨⟨ms, tail⟩, hms, h⟩ := Option.map_eq_some_iff.1 h
      cases h
      refine inRangeMembers_iff.2 (forall_of_sortMembers ?_)
      exact forall_of_delimited (fun _ _ _ => of_namedValue fun _ _ _ => ih) hms
    · exact inRange_of_scalar? h

/-- **Every integer in a value read from a text fits into 64 bits.** -/
theorem inRange_of_parse? {text : String} {v : Json} (h : parse? text = some v) : v.InRange := by
  unfold parse? at h
  split at h
  · next hv =>
    split at h
    · cases h
      exact inRange_of_value? hv
    · cases h
  · cases h

end MarkdownEdits.Json
