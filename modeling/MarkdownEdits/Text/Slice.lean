/-!
# Slices

Positions in a source text count UTF-8 bytes. A slice exists where its range lies inside the text
and cuts no character.
-/

namespace MarkdownEdits

/-- The bytes from `start` up to, and not including, `stop` of a source text. -/
structure ByteRange where
  start : Nat
  stop : Nat
  deriving DecidableEq, Repr, Inhabited

/-- A range that is inverted, ends outside the text or cuts a character. -/
structure BadSlice where
  range : ByteRange
  deriving DecidableEq, Repr, Inhabited

namespace Text

/-- The characters from byte `n` on. -/
def dropBytes? : Nat → List Char → Option (List Char)
  | 0, cs => some cs
  | _ + 1, [] => none
  | n + 1, c :: cs => if c.utf8Size ≤ n + 1 then dropBytes? (n + 1 - c.utf8Size) cs else none

/-- The characters before byte `n`. -/
def takeBytes? : Nat → List Char → Option (List Char)
  | 0, _ => some []
  | _ + 1, [] => none
  | n + 1, c :: cs =>
    if c.utf8Size ≤ n + 1 then (takeBytes? (n + 1 - c.utf8Size) cs).map (c :: ·) else none

/-- The number of bytes of a list of characters. -/
def byteLength : List Char → Nat
  | [] => 0
  | c :: cs => c.utf8Size + byteLength cs

def slice? (source : String) (r : ByteRange) : Option String :=
  if r.start ≤ r.stop then
    (dropBytes? r.start source.toList).bind fun cs =>
      (takeBytes? (r.stop - r.start) cs).map String.ofList
  else none

/-- The text of a range. -/
def slice (source : String) (r : ByteRange) : Except BadSlice String :=
  match slice? source r with
  | some text => .ok text
  | none => .error ⟨r⟩

end Text

end MarkdownEdits
