import MarkdownEdits.Json.Basic

/-!
# Members by name

Sorting the members of an object keeps what can be looked up in them: under each name the value that
was given last.
-/

namespace MarkdownEdits.Json

/-! ### Sorting members -/

theorem lookup_cons_eq_ite (name key : String) (value : Json) (ms : List (String × Json)) :
    ((name, value) :: ms).lookup key = if key = name then some value else ms.lookup key := by
  rw [List.lookup_cons]
  by_cases hkey : key = name
  · simp [hkey]
  · rw [if_neg hkey, beq_false_of_ne hkey]

/-- Adding a member changes what is found under its own name, and nothing else. -/
theorem lookup_insertMember (name key : String) (value : Json) (ms : List (String × Json)) :
    (insertMember name value ms).lookup key = if key = name then some value else ms.lookup key := by
  induction ms with
  | nil => rw [insertMember, lookup_cons_eq_ite]
  | cons m ms ih =>
    obtain ⟨n, v⟩ := m
    rw [insertMember]
    split
    · rw [lookup_cons_eq_ite]
    split
    · next hname =>
      subst hname
      rw [lookup_cons_eq_ite, lookup_cons_eq_ite]
      split <;> rfl
    · next hname =>
      rw [lookup_cons_eq_ite, lookup_cons_eq_ite, ih]
      by_cases hkey : key = n
      · have hother : key ≠ name := fun h => hname (h.symm.trans hkey)
        rw [if_pos hkey, if_neg hother, if_pos hkey]
      · rw [if_neg hkey, if_neg hkey]

theorem lookup_foldl_insertMember (key : String) (ms sorted : List (String × Json)) :
    (ms.foldl (fun sorted m => insertMember m.1 m.2 sorted) sorted).lookup key =
      (ms.reverse ++ sorted).lookup key := by
  induction ms generalizing sorted with
  | nil => rfl
  | cons m ms ih =>
    obtain ⟨n, v⟩ := m
    rw [List.foldl_cons, ih, List.reverse_cons, List.append_assoc, List.lookup_append,
      List.lookup_append, lookup_insertMember, List.singleton_append, lookup_cons_eq_ite]

/-- **Of the members with one name the last is found.** -/
theorem lookup_sortMembers (key : String) (ms : List (String × Json)) :
    (sortMembers ms).lookup key = ms.reverse.lookup key := by
  rw [sortMembers, lookup_foldl_insertMember, List.append_nil]

/-- The last member with a name, with the members before and behind it. -/
theorem lookup_sortMembers_eq_some_iff {name : String} {v : Json} {ms : List (String × Json)} :
    (sortMembers ms).lookup name = some v ↔
      ∃ before behind, ms = before ++ (name, v) :: behind ∧ ∀ m ∈ behind, m.1 ≠ name := by
  rw [lookup_sortMembers, List.lookup_eq_some_iff]
  constructor
  · rintro ⟨behind, before, hms, hbehind⟩
    refine ⟨before.reverse, behind.reverse, ?_, ?_⟩
    · rw [← List.reverse_reverse ms, hms]
      simp
    · intro m hm heq
      have hne := hbehind m (List.mem_reverse.1 hm)
      simp [heq] at hne
  · rintro ⟨before, behind, rfl, hbehind⟩
    refine ⟨behind.reverse, before.reverse, by simp, ?_⟩
    intro m hm
    have hne := hbehind m (List.mem_reverse.1 hm)
    simpa using hne.symm

theorem lookup_sortMembers_append (before : List (String × Json)) (name : String) (v : Json)
    {behind : List (String × Json)} (h : ∀ m ∈ behind, m.1 ≠ name) :
    (sortMembers (before ++ (name, v) :: behind)).lookup name = some v :=
  lookup_sortMembers_eq_some_iff.2 ⟨before, behind, rfl, h⟩

/-! ### Sorted values -/

/-- An object with one member is in order. -/
@[simp] theorem sorted_singleton (name : String) (value : Json) :
    (Json.object [(name, value)]).sorted = .object [(name, value.sorted)] := rfl

theorem sortedItems_eq_map (vs : List Json) : sortedItems vs = vs.map sorted := by
  induction vs with
  | nil => rfl
  | cons v vs ih => rw [sortedItems, ih, List.map_cons]

theorem sortedMembers_eq_map (ms : List (String × Json)) :
    sortedMembers ms = ms.map fun m => (m.1, m.2.sorted) := by
  induction ms with
  | nil => rfl
  | cons m ms ih => rw [sortedMembers, ih, List.map_cons]

theorem lookup_map_sorted (key : String) (ms : List (String × Json)) :
    (ms.map fun m => (m.1, m.2.sorted)).lookup key = (ms.lookup key).map sorted := by
  induction ms with
  | nil => rfl
  | cons m ms ih =>
    obtain ⟨n, v⟩ := m
    rw [List.map_cons, lookup_cons_eq_ite, lookup_cons_eq_ite, ih]
    split <;> rfl

/-- **What a sorted object holds under a name.** -/
theorem member?_sorted_object (key : String) (ms : List (String × Json)) :
    (Json.object ms).sorted.member? key = (ms.reverse.lookup key).map sorted := by
  rw [sorted, member?, lookup_sortMembers, sortedMembers_eq_map, ← List.map_reverse,
    lookup_map_sorted]

end MarkdownEdits.Json
