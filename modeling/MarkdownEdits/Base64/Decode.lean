import MarkdownEdits.Base64.Basic

/-!
# Decoding base64

The symbols are read in groups of four. All groups but the last are full; the last one may end in
padding, and the bits that the padding stands for must be zero. Faults name the first place in
reading order where the text leaves that form.
-/

namespace MarkdownEdits.Base64

inductive Fault
  /-- A byte outside the alphabet, or padding where none may stand. -/
  | invalidSymbol (byte : UInt8) (offset : Nat)
  /-- The last group has fewer than two symbols; `length` is that of the text up to its padding. -/
  | invalidLength (length : Nat)
  /-- Symbols and padding do not fill the last group. -/
  | invalidPadding
  /-- The last symbol has bits that no byte takes up. -/
  | invalidLastSymbol (byte : UInt8) (offset : Nat)
  deriving DecidableEq, Repr, Inhabited

def Fault.message : Fault → String
  | .invalidSymbol byte offset => s!"Invalid symbol {byte.toNat}, offset {offset}."
  | .invalidLength length => s!"Invalid input length: {length}"
  | .invalidPadding => "Invalid padding"
  | .invalidLastSymbol byte offset => s!"Invalid last symbol {byte.toNat}, offset {offset}."

/-- The values of symbols that start at `offset`. -/
def values (offset : Nat) : List UInt8 → Except Fault (List Nat)
  | [] => .ok []
  | b :: bs =>
    match value? b with
    | none => .error (.invalidSymbol b offset)
    | some v => (values (offset + 1) bs).map (v :: ·)

/-- The bytes of full groups. -/
def joinGroups : List Nat → List UInt8
  | a :: b :: c :: d :: rest =>
    let n := ((a * 64 + b) * 64 + c) * 64 + d
    (n / 65536).toUInt8 :: (n / 256 % 256).toUInt8 :: (n % 256).toUInt8 :: joinGroups rest
  | _ => []

/-- The last group, which starts at `offset`: its symbols, and how much padding follows them. -/
def splitLast (offset : Nat) (group : List UInt8) : Except Fault (List Nat × Nat) := do
  let symbols := group.takeWhile (· != pad)
  let padding := group.dropWhile (· != pad)
  let vs ← values offset symbols
  let misplaced := symbols.length < 2 || padding.any (· != pad)
  if !padding.isEmpty && misplaced then .error (.invalidSymbol pad (offset + symbols.length))
  else return (vs, padding.length)

/-- The bytes of the values of a last group, and the bits left over. -/
def joinLast : List Nat → List UInt8 × Nat
  | [a, b] =>
    let n := a * 64 + b
    ([(n / 16).toUInt8], n % 16)
  | [a, b, c] =>
    let n := (a * 64 + b) * 64 + c
    ([(n / 1024).toUInt8, (n / 4 % 256).toUInt8], n % 4)
  | vs => (joinGroups vs, 0)

/-- The bytes of the last group, which starts at `offset`. -/
def decodeLast (offset : Nat) (group : List UInt8) : Except Fault (List UInt8) := do
  let (vs, padding) ← splitLast offset group
  if vs.length < 2 then .error (.invalidLength (offset + vs.length))
  else if vs.length + padding ≠ 4 then .error .invalidPadding
  else
    let (bytes, left) := joinLast vs
    if left ≠ 0 then
      .error (.invalidLastSymbol ((group[vs.length - 1]?).getD pad) (offset + vs.length - 1))
    else return bytes

/-- The bytes that some symbols stand for. A text whose length is one more than a multiple of four
is first judged by its last byte. -/
def decode (symbols : List UInt8) : Except Fault (List UInt8) :=
  match symbols.getLast? with
  | none => .ok []
  | some last =>
    let length := symbols.length
    let offset := (length - 1) / 4 * 4
    if length % 4 = 1 ∧ last ≠ pad ∧ value? last = none then
      .error (.invalidSymbol last (length - 1))
    else do
      let full ← values 0 (symbols.take offset)
      let rest ← decodeLast offset (symbols.drop offset)
      return joinGroups full ++ rest

end MarkdownEdits.Base64
