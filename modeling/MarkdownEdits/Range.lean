/-!
# Text ranges

Half-open ranges of document offsets, counted in UTF-16 units.
-/

namespace MarkdownEdits

/-- The offsets from `start` up to, and not including, `stop`. Nothing asks `start ≤ stop`: a range
that came from outside may be inverted. -/
structure TextRange where
  start : Nat
  stop : Nat
  deriving DecidableEq, Repr, Inhabited

namespace TextRange

/-- The range of `length` offsets from `start` on. -/
def ofLength (start length : Nat) : TextRange := ⟨start, start + length⟩

/-- Zero for an inverted range. -/
def length (r : TextRange) : Nat := r.stop - r.start

def isEmpty (r : TextRange) : Bool := r.stop ≤ r.start

/-- The range seen from a document in which its origin stands at `origin`. -/
def offsetBy (r : TextRange) (origin : Nat) : TextRange := ⟨r.start + origin, r.stop + origin⟩

/-- How messages name a range. -/
def describe (r : TextRange) : String :=
  "TextRange \x7b start: " ++ toString r.start ++ ", end: " ++ toString r.stop ++ " \x7d"

@[simp] theorem start_ofLength (s n : Nat) : (TextRange.ofLength s n).start = s := rfl

@[simp] theorem stop_ofLength (s n : Nat) : (TextRange.ofLength s n).stop = s + n := rfl

@[simp] theorem length_ofLength (s n : Nat) : (TextRange.ofLength s n).length = n := by simp [length]

@[simp] theorem offsetBy_zero (r : TextRange) : r.offsetBy 0 = r := rfl

theorem offsetBy_offsetBy (r : TextRange) (j k : Nat) :
    (r.offsetBy j).offsetBy k = r.offsetBy (j + k) := by
  simp [offsetBy, Nat.add_assoc]

theorem isEmpty_iff {r : TextRange} : r.isEmpty = true ↔ r.stop ≤ r.start := by simp [isEmpty]

end TextRange

end MarkdownEdits
