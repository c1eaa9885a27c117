import MarkdownEdits.Proofs.Trimming

/-!
# White space between texts

Two texts that are trimmed together keep what white space there is between them. Texts with white
space between them are found again in the text that they make, if each of them is trimmed and there
is something of it: then the gaps between them are determined.
-/

namespace MarkdownEdits.Text

/-! ### The ends of a text -/

/-- White space ahead of all else in a text. -/
def BeginsBlank (s : String) : Prop := ∃ c ∈ s.toList.head?, isBlank c = true

/-- White space behind all else in a text. -/
def EndsBlank (s : String) : Prop := ∃ c ∈ s.toList.getLast?, isBlank c = true

section Ends

variable {s t : String}

theorem exists_toList_eq_cons (hs : s ≠ "") : ∃ c cs, s.toList = c :: cs :=
  List.exists_cons_of_ne_nil fun h => hs (String.toList_eq_nil_iff.1 h)

theorem beginsBlank_append : BeginsBlank (s ++ t) ↔ BeginsBlank s ∨ s = "" ∧ BeginsBlank t := by
  by_cases hs : s = ""
  · subst hs
    simp [BeginsBlank]
  · obtain ⟨c, cs, hcs⟩ := exists_toList_eq_cons hs
    simp [BeginsBlank, hs, hcs]

theorem endsBlank_append : EndsBlank (s ++ t) ↔ EndsBlank t ∨ t = "" ∧ EndsBlank s := by
  by_cases ht : t = ""
  · subst ht
    simp [EndsBlank]
  · obtain ⟨c, cs, hcs⟩ := exists_toList_eq_cons ht
    simp [EndsBlank, ht, hcs, List.getLast?_append, List.getLast?_cons]

theorem ne_empty_of_not_isBlankText (h : ¬ IsBlankText s) : s ≠ "" := by
  rintro rfl
  exact h nofun

theorem IsBlankText.beginsBlank_iff (h : IsBlankText s) : BeginsBlank s ↔ s ≠ "" := by
  refine ⟨?_, fun hs => ?_⟩
  · rintro ⟨c, hc, -⟩ rfl
    cases hc
  · obtain ⟨c, cs, hcs⟩ := exists_toList_eq_cons hs
    exact ⟨c, by rw [hcs]; rfl, h c (hcs ▸ List.mem_cons_self)⟩

theorem IsBlankText.endsBlank_iff (h : IsBlankText s) : EndsBlank s ↔ s ≠ "" := by
  refine ⟨?_, fun hs => ?_⟩
  · rintro ⟨c, hc, -⟩ rfl
    cases hc
  · have hne : s.toList ≠ [] := fun hnil => hs (String.toList_eq_nil_iff.1 hnil)
    exact ⟨_, List.getLast?_eq_some_getLast hne, h _ (List.getLast_mem hne)⟩

theorem isTrimmed_iff : IsTrimmed s ↔ ¬ BeginsBlank s ∧ ¬ EndsBlank s := by
  constructor
  · rintro ⟨hhead, hlast⟩
    constructor
    · rintro ⟨c, hc, hblank⟩
      exact absurd hblank (by simp [hhead c hc])
    · rintro ⟨c, hc, hblank⟩
      exact absurd hblank (by simp [hlast c hc])
  · rintro ⟨hbegins, hends⟩
    constructor
    · exact fun c hc => Bool.eq_false_iff.2 fun hblank => hbegins ⟨c, hc, hblank⟩
    · exact fun c hc => Bool.eq_false_iff.2 fun hblank => hends ⟨c, hc, hblank⟩

/-- A text that is trimmed but for white space ahead of it begins with that. -/
theorem IsTrimmed.beginsBlank_iff (h : IsTrimmed s) (hs : s ≠ "") {lead trail : String}
    (hlead : IsBlankText lead) : BeginsBlank (lead ++ s ++ trail) ↔ lead ≠ "" := by
  simp [beginsBlank_append, hlead.beginsBlank_iff, (isTrimmed_iff.1 h).1, hs]

/-- A text that is trimmed but for white space behind it ends with that. -/
theorem IsTrimmed.endsBlank_iff (h : IsTrimmed s) (hs : s ≠ "") {lead trail : String}
    (htrail : IsBlankText trail) : EndsBlank (lead ++ s ++ trail) ↔ trail ≠ "" := by
  simp [endsBlank_append, htrail.endsBlank_iff, (isTrimmed_iff.1 h).2, hs]

end Ends

/-! ### What trimming leaves between two texts -/

section Gap

variable {s t : String}

/-- A text is what trimming leaves of it, with white space at its ends. -/
theorem exists_eq_append_trim (s : String) :
    ∃ lead trail, IsBlankText lead ∧ IsBlankText trail ∧ s = lead ++ trim s ++ trail := by
  refine ⟨.ofList (s.toList.takeWhile isBlank),
    .ofList (takeEndWhile isBlank (s.toList.dropWhile isBlank)), ?_, ?_, ?_⟩
  · intro c hc
    rw [String.toList_ofList] at hc
    exact List.mem_takeWhile_imp hc
  · intro c hc
    rw [String.toList_ofList, takeEndWhile, List.mem_reverse] at hc
    exact List.mem_takeWhile_imp hc
  · rw [trim, String.append_assoc, ← String.ofList_append, takeEndWhile_append_dropEndWhile,
      ← String.ofList_append, List.takeWhile_append_dropWhile, String.ofList_toList]

theorem IsTrimmed.trim_eq (h : IsTrimmed s) : trim s = s := by
  obtain ⟨lead, trail, hlead, htrail, hs⟩ := exists_eq_append_trim s
  obtain ⟨hbegins, hends⟩ := isTrimmed_iff.1 h
  rw [hs, beginsBlank_append, beginsBlank_append, hlead.beginsBlank_iff] at hbegins
  rw [hs, endsBlank_append, htrail.endsBlank_iff] at hends
  obtain rfl : lead = "" := by_contra fun hne => hbegins (.inl (.inl hne))
  obtain rfl : trail = "" := by_contra fun hne => hends (.inl hne)
  rw [String.empty_append, String.append_empty] at hs
  exact hs.symm

/-- Two texts trimmed together are each trimmed, with what white space there is between them. -/
theorem trim_append (hs : ¬ IsBlankText s) (ht : ¬ IsBlankText t) :
    ∃ gap, IsBlankText gap ∧ trim (s ++ t) = trim s ++ gap ++ trim t ∧
      (gap ≠ "" ↔ EndsBlank s ∨ BeginsBlank t) := by
  obtain ⟨lead, before, hlead, hbefore, hsEq⟩ := exists_eq_append_trim s
  obtain ⟨behind, trail, hbehind, htrail, htEq⟩ := exists_eq_append_trim t
  have hsNe : trim s ≠ "" := fun h => hs (trim_eq_empty_iff.1 h)
  have htNe : trim t ≠ "" := fun h => ht (trim_eq_empty_iff.1 h)
  have hends : EndsBlank s ↔ before ≠ "" := by
    rw [hsEq]
    exact (isTrimmed_trim s).endsBlank_iff hsNe hbefore
  have hbegins : BeginsBlank t ↔ behind ≠ "" := by
    rw [htEq]
    exact (isTrimmed_trim t).beginsBlank_iff htNe hbehind
  have hinside : IsTrimmed (trim s ++ (before ++ behind) ++ trim t) := by
    have hfirst := (isTrimmed_iff.1 (isTrimmed_trim s)).1
    have hlast := (isTrimmed_iff.1 (isTrimmed_trim t)).2
    rw [isTrimmed_iff, endsBlank_append, String.append_assoc, beginsBlank_append]
    simp [hfirst, hlast, hsNe, htNe]
  refine ⟨before ++ behind, isBlankText_append.2 ⟨hbefore, hbehind⟩, ?_, ?_⟩
  · have hsplit : s ++ t = lead ++ ((trim s ++ (before ++ behind) ++ trim t) ++ trail) := by
      have hparts := congrArg₂ (· ++ ·) hsEq htEq
      simpa only [String.append_assoc] using hparts
    rw [hsplit, trim_blank_append hlead, trim_append_blank htrail, hinside.trim_eq]
  · rw [hends, hbegins, ← not_and_or, not_iff_not]
    exact String.append_eq_empty_iff

end Gap

/-! ### Texts with gaps between them -/

/-- `s` is the texts one after the other with a gap between each two of them. A gap is white space,
or nothing. -/
inductive LaidOut : (texts gaps : List String) → (s : String) → Prop
  | nil : LaidOut [] [] ""
  | single (t : String) : LaidOut [t] [] t
  | cons (t : String) {next : String} {more gaps : List String} {gap s : String}
      (blank : IsBlankText gap) (rest : LaidOut (next :: more) gaps s) :
      LaidOut (t :: next :: more) (gap :: gaps) (t ++ gap ++ s)

section LaidOut

variable {t s s' gap gap' : String} {texts more gaps gaps' : List String}

theorem LaidOut.exists_eq_append (h : LaidOut (t :: more) gaps s) : ∃ rest, s = t ++ rest := by
  cases h with
  | single => exact ⟨"", String.append_empty.symm⟩
  | cons t blank rest => exact ⟨_, String.append_assoc⟩

theorem LaidOut.not_beginsBlank (ht : IsTrimmed t ∧ t ≠ "") (h : LaidOut (t :: more) gaps s) :
    ¬ BeginsBlank s := by
  obtain ⟨rest, rfl⟩ := h.exists_eq_append
  simp [beginsBlank_append, (isTrimmed_iff.1 ht.1).1, ht.2]

theorem takeWhile_of_not_beginsBlank (h : ¬ BeginsBlank s) : s.toList.takeWhile isBlank = [] := by
  by_cases hs : s = ""
  · subst hs
    rfl
  · obtain ⟨c, cs, hcs⟩ := exists_toList_eq_cons hs
    rw [hcs, List.takeWhile_cons_of_neg fun hc => h ⟨c, by rw [hcs]; rfl, hc⟩]

/-- White space ahead of a text that does not begin with any is found again. -/
theorem blank_append_inj (hgap : IsBlankText gap) (hgap' : IsBlankText gap')
    (hs : ¬ BeginsBlank s) (hs' : ¬ BeginsBlank s') (h : gap ++ s = gap' ++ s') :
    gap = gap' ∧ s = s' := by
  have htake := congrArg (fun text => text.toList.takeWhile isBlank) h
  simp only [String.toList_append, List.takeWhile_append_of_pos hgap,
    List.takeWhile_append_of_pos hgap', takeWhile_of_not_beginsBlank hs,
    takeWhile_of_not_beginsBlank hs', List.append_nil] at htake
  obtain rfl := String.toList_inj.1 htake
  exact ⟨rfl, String.append_right_inj _ |>.1 h⟩

/-- **The gaps between trimmed texts are determined** by what they make together. -/
theorem LaidOut.gaps_eq (htexts : ∀ t ∈ texts, IsTrimmed t ∧ t ≠ "") (h : LaidOut texts gaps s)
    (h' : LaidOut texts gaps' s') (hs : s = s') : gaps = gaps' := by
  induction h generalizing gaps' s' with
  | nil => cases h'; rfl
  | single t => cases h'; rfl
  | cons t blank rest ih =>
    cases h' with
    | cons _ blank' rest' =>
      obtain ⟨-, hmore⟩ := List.forall_mem_cons.1 htexts
      obtain ⟨hnext, -⟩ := List.forall_mem_cons.1 hmore
      rw [String.append_assoc, String.append_assoc, String.append_right_inj] at hs
      obtain ⟨rfl, hrest⟩ := blank_append_inj blank blank' (rest.not_beginsBlank hnext)
        (rest'.not_beginsBlank hnext) hs
      rw [ih hmore rest' hrest]

end LaidOut

end MarkdownEdits.Text
