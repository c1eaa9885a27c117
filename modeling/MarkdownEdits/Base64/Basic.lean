/-!
# Base64

The standard alphabet with padding: three bytes are written as four symbols, and a last group of one
or two bytes is filled up with `=`. Every byte string has one written form.
-/

namespace MarkdownEdits.Base64

/-- The byte that fills up the last group. -/
def pad : UInt8 := 61

/-- The value of a byte of the alphabet. -/
def value? (b : UInt8) : Option Nat :=
  let n := b.toNat
  if 65 ≤ n ∧ n ≤ 90 then some (n - 65)
  else if 97 ≤ n ∧ n ≤ 122 then some (n - 71)
  else if 48 ≤ n ∧ n ≤ 57 then some (n + 4)
  else if n = 43 then some 62
  else if n = 47 then some 63
  else none

/-- The byte of the alphabet for a value below 64. -/
def symbol (v : Nat) : UInt8 :=
  if v < 26 then (v + 65).toUInt8
  else if v < 52 then (v + 71).toUInt8
  else if v < 62 then (v - 4).toUInt8
  else if v = 62 then 43
  else 47

/-- The symbols for some bytes. -/
def encode : List UInt8 → List UInt8
  | [] => []
  | [x] =>
    let n := x.toNat * 16
    [symbol (n / 64), symbol (n % 64), pad, pad]
  | [x, y] =>
    let n := (x.toNat * 256 + y.toNat) * 4
    [symbol (n / 4096), symbol (n / 64 % 64), symbol (n % 64), pad]
  | x :: y :: z :: rest =>
    let n := (x.toNat * 256 + y.toNat) * 256 + z.toNat
    symbol (n / 262144) :: symbol (n / 4096 % 64) :: symbol (n / 64 % 64) :: symbol (n % 64) ::
      encode rest

end MarkdownEdits.Base64
