/-!
# Double-precision numbers

Finite IEEE 754 doubles as a sign, a mantissa and a power of two. Arithmetic is exact on natural
numbers and rounded once, to nearest with ties to even.
-/

namespace MarkdownEdits

/-- The number `mantissa · 2 ^ exponent`, negated if `negative`. A mantissa has at most 53 bits, and
exactly 53 unless the exponent is the least one, -1074. -/
structure Binary64 where
  negative : Bool
  mantissa : Nat
  exponent : Int
  deriving DecidableEq, Repr, Inhabited

/-- A positive rational number, as a quotient. -/
structure Ratio where
  num : Nat
  den : Nat
  deriving Repr, Inhabited

namespace Ratio

/-- The quotient times a power of two. -/
def shift (r : Ratio) (k : Int) : Ratio :=
  ⟨r.num <<< k.toNat, r.den <<< (-k).toNat⟩

/-- The integer nearest to the quotient, the even one of two. -/
def round (r : Ratio) : Nat :=
  let q := r.num / r.den
  let twice := 2 * (r.num % r.den)
  if twice < r.den then q
  else if r.den < twice then q + 1
  else if q % 2 = 0 then q else q + 1

/-- The exponent at which the quotient has 53 bits before the point, and the least exponent where
that is smaller. -/
def exponent (r : Ratio) : Int :=
  let guess := max ((r.num.log2 : Int) - r.den.log2 - 53) (-1074)
  let scaled := r.shift (-guess)
  if 1 <<< 53 ≤ scaled.num / scaled.den then guess + 1 else guess

end Ratio

namespace Binary64

def zero (negative : Bool) : Binary64 := ⟨negative, 0, -1074⟩

/-- The magnitude of a double. -/
def ratio (x : Binary64) : Ratio := Ratio.shift ⟨x.mantissa, 1⟩ x.exponent

/-- The double nearest to a quotient, unless that is beyond the largest double. -/
def ofRatio (negative : Bool) (r : Ratio) : Option Binary64 :=
  if r.num = 0 then some (zero negative)
  else
    let e := r.exponent
    let m := (r.shift (-e)).round
    let (m, e) := if m = 1 <<< 53 then (1 <<< 52, e + 1) else (m, e)
    if 971 < e then none else some ⟨negative, m, e⟩

def ofNat (n : Nat) : Option Binary64 := ofRatio false ⟨n, 1⟩

def neg (x : Binary64) : Binary64 := { x with negative := !x.negative }

/-- The rounded product of two magnitudes. -/
def mul (x y : Binary64) : Option Binary64 :=
  ofRatio false ⟨x.ratio.num * y.ratio.num, x.ratio.den * y.ratio.den⟩

/-- The rounded quotient of two magnitudes. -/
def div (x y : Binary64) : Option Binary64 :=
  ofRatio false ⟨x.ratio.num * y.ratio.den, x.ratio.den * y.ratio.num⟩

/-- The double nearest to a power of ten; there is one up to `10 ^ 308`. -/
def powerOfTen (k : Nat) : Option Binary64 := ofNat (Nat.pow 10 k)

/-- `significand · 10 ^ exponent` in two roundings: first the significand, then its product or
quotient with a power of ten. Below `10 ^ -308` a division by `10 ^ 308` comes before; where that
does not bring the exponent into range, nothing is left of the number. -/
def scale10 (significand : Nat) (exponent : Int) : Option Binary64 := do
  let x ← ofNat significand
  if x.mantissa = 0 then return x
  else if 308 < exponent then none
  else if 0 ≤ exponent then x.mul (← powerOfTen exponent.toNat)
  else if -308 ≤ exponent then x.div (← powerOfTen (-exponent).toNat)
  else if -616 ≤ exponent then
    (← x.div (← powerOfTen 308)).div (← powerOfTen (-exponent - 308).toNat)
  else return zero false

end Binary64

end MarkdownEdits
