import MarkdownEdits.Text.Lines

/-!
# Lines of a text

A text is cut into lines at its line feeds. Texts whose last line ends can be put behind one
another, and lines are found again in a text that is made of them.
-/

namespace MarkdownEdits.Text

/-- The last line of the text, if there is one, ends in a line feed. -/
def LinesEnd (cs : List Char) : Prop := ∀ c ∈ cs.getLast?, c = '\n'

theorem LinesEnd.of_append (cs : List Char) {more : List Char} (h : LinesEnd (cs ++ more)) :
    LinesEnd more := by
  intro c hc
  apply h
  rw [List.getLast?_append, hc]
  rfl

/-- A character goes ahead of the first line, unless it ends it. -/
theorem lines_cons {c : Char} {cs : List Char} (hc : c ≠ '\n')
    (hbreak : c = '\r' → cs.head? ≠ some '\n') :
    lines (c :: cs) =
      match lines cs with
      | [] => [[c]]
      | line :: more => (c :: line) :: more := by
  have hpair : ∀ rest, c = '\r' → cs = '\n' :: rest → False := by
    rintro rest rfl rfl
    exact hbreak rfl rfl
  exact (lines.eq_3 c cs hpair).trans (if_neg hc)

theorem lines_eq_nil_iff {cs : List Char} : lines cs = [] ↔ cs = [] := by
  fun_cases lines cs <;> simp

/-- A text whose lines end has a line for each line feed. -/
theorem length_lines {cs : List Char} (h : LinesEnd cs) : (lines cs).length = cs.count '\n' := by
  fun_induction lines cs with
  | case1 => rfl
  | case2 rest ih =>
    have hrest := LinesEnd.of_append ['\r', '\n'] h
    simp [ih hrest]
  | case3 rest hbreak ih =>
    have hrest := LinesEnd.of_append ['\n'] h
    simp [ih hrest]
  | case4 c rest hbreak hc hrest ih =>
    obtain rfl := lines_eq_nil_iff.1 hrest
    exact absurd (h c rfl) hc
  | case5 c rest hbreak hc line more hrest ih =>
    have hrestEnd := LinesEnd.of_append [c] h
    rw [List.count_cons_of_ne hc, ← ih hrestEnd, hrest]
    rfl

/-- What stands behind lines that end does not change them. -/
theorem LinesEnd.lines_append {cs : List Char} (h : LinesEnd cs) (more : List Char) :
    lines (cs ++ more) = lines cs ++ lines more := by
  fun_induction lines cs with
  | case1 => rfl
  | case2 rest ih =>
    have hrest := LinesEnd.of_append ['\r', '\n'] h
    simp [lines, ih hrest]
  | case3 rest hbreak ih =>
    have hrest := LinesEnd.of_append ['\n'] h
    simp [lines, ih hrest]
  | case4 c rest hbreak hc hrest ih =>
    obtain rfl := lines_eq_nil_iff.1 hrest
    exact absurd (h c rfl) hc
  | case5 c rest hbreak hc line others hrest ih =>
    have hrestEnd := LinesEnd.of_append [c] h
    have hhead : c = '\r' → (rest ++ more).head? ≠ some '\n' := by
      rintro rfl hhead
      cases rest with
      | nil => cases hrest
      | cons d rest =>
        obtain rfl := Option.some.inj hhead
        exact hbreak rest rfl rfl
    rw [List.cons_append, lines_cons hc hhead, ih hrestEnd, hrest]
    rfl

/-- A line is what stands before its line feed, where no carriage return does. -/
theorem lines_concat {cs : List Char} (h : '\n' ∉ cs) (hlast : cs.getLast? ≠ some '\r') :
    lines (cs ++ ['\n']) = [cs] := by
  induction cs with
  | nil => rfl
  | cons c cs ih =>
    rw [List.mem_cons, not_or] at h
    have hhead : c = '\r' → (cs ++ ['\n']).head? ≠ some '\n' := by
      rintro rfl hhead
      cases cs with
      | nil => exact hlast rfl
      | cons d cs => exact h.2 (Option.some.inj hhead ▸ List.mem_cons_self)
    have hlast' : cs.getLast? ≠ some '\r' := by
      intro hcs
      apply hlast
      rw [List.getLast?_cons, hcs]
      rfl
    rw [List.cons_append, lines_cons (Ne.symm h.1) hhead, ih h.2 hlast']

/-- Lines are found again where none holds a line feed, or a carriage return at its end. -/
theorem lines_flatMap {texts : List String}
    (h : ∀ t ∈ texts, '\n' ∉ t.toList ∧ t.toList.getLast? ≠ some '\r') :
    lines (texts.flatMap fun t => t.toList ++ ['\n']) = texts.map String.toList := by
  induction texts with
  | nil => rfl
  | cons t texts ih =>
    obtain ⟨⟨hfeed, hlast⟩, hrest⟩ := List.forall_mem_cons.1 h
    have hend : LinesEnd (t.toList ++ ['\n']) := by
      intro c hc
      rw [List.getLast?_concat] at hc
      exact (Option.some.inj hc).symm
    rw [List.flatMap_cons, hend.lines_append, lines_concat hfeed hlast, ih hrest]
    rfl

end MarkdownEdits.Text
