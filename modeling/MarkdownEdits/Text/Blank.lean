/-!
# White space

The characters of the Unicode property `White_Space`, and the parts of a text left when its blanks
are removed.
-/

namespace MarkdownEdits.Text

/-- Unicode `White_Space`. -/
def isBlank (c : Char) : Bool :=
  let n := c.toNat
  (0x09 ≤ n && n ≤ 0x0D) || n == 0x20 || n == 0x85 || n == 0xA0 || n == 0x1680 ||
    (0x2000 ≤ n && n ≤ 0x200A) || n == 0x2028 || n == 0x2029 || n == 0x202F || n == 0x205F ||
    n == 0x3000

/-- A list without the longest run of `p` at its end. -/
def dropEndWhile {α : Type} (p : α → Bool) (cs : List α) : List α :=
  (cs.reverse.dropWhile p).reverse

/-- The longest run of `p` at the end of a list. -/
def takeEndWhile {α : Type} (p : α → Bool) (cs : List α) : List α :=
  (cs.reverse.takeWhile p).reverse

/-- A text without the blanks at both ends. -/
def trim (s : String) : String := .ofList (dropEndWhile isBlank (s.toList.dropWhile isBlank))

/-- A text without the blanks at its end. -/
def trimEnd (s : String) : String := .ofList (dropEndWhile isBlank s.toList)

def isLineBreak (c : Char) : Bool := c == '\n' || c == '\r'

/-- A text without the line feeds and carriage returns at its end. -/
def trimLineBreaks (s : String) : String := .ofList (dropEndWhile isLineBreak s.toList)

/-- A text without any blank. -/
def withoutBlanks (s : String) : String := .ofList (s.toList.filter fun c => !isBlank c)

theorem isBlank_of_isWhitespace {c : Char} (h : c.isWhitespace = true) : isBlank c = true := by
  simp only [Char.isWhitespace, Bool.or_eq_true, decide_eq_true_eq] at h
  rcases h with ((h | h) | h) | h <;> subst h <;> decide

theorem isBlank_of_isLineBreak {c : Char} (h : isLineBreak c = true) : isBlank c = true := by
  simp only [isLineBreak, Bool.or_eq_true, beq_iff_eq] at h
  rcases h with h | h <;> subst h <;> decide

@[simp] theorem takeEndWhile_append_dropEndWhile {α : Type} (p : α → Bool) (cs : List α) :
    dropEndWhile p cs ++ takeEndWhile p cs = cs := by
  rw [dropEndWhile, takeEndWhile, ← List.reverse_append, List.takeWhile_append_dropWhile,
    List.reverse_reverse]

end MarkdownEdits.Text
