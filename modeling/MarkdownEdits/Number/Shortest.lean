import MarkdownEdits.Number.Binary64

/-!
# Shortest decimals

The text of a double: the fewest digits that read back as the same double, and of those the nearest
ones. Point notation from `1e-5` up to below `1e16`, always with a fraction; else scientific.
-/

namespace MarkdownEdits.Binary64

/-- The reals that round to the double lie between these two, and the ends count among them iff the
mantissa is even. Below a power of two the doubles stand twice as close. -/
def interval (x : Binary64) : Ratio × Ratio :=
  let low :=
    if x.mantissa = 1 <<< 52 ∧ -1074 < x.exponent then
      Ratio.shift ⟨4 * x.mantissa - 1, 1⟩ (x.exponent - 2)
    else Ratio.shift ⟨2 * x.mantissa - 1, 1⟩ (x.exponent - 1)
  (low, Ratio.shift ⟨2 * x.mantissa + 1, 1⟩ (x.exponent - 1))

/-- `n · 10 ^ k` as a quotient. -/
def gridPoint (n : Nat) (k : Int) : Ratio := ⟨n * Nat.pow 10 k.toNat, Nat.pow 10 (-k).toNat⟩

/-- Whether `n · 10 ^ k` reads as the double. -/
def readsBack (x : Binary64) (n : Nat) (k : Int) : Bool :=
  let g := gridPoint n k
  let (low, high) := x.interval
  let fromLow := low.num * g.den
  let toHigh := high.num * g.den
  if x.mantissa % 2 = 0 then fromLow ≤ g.num * low.den && g.num * high.den ≤ toHigh
  else fromLow < g.num * low.den && g.num * high.den < toHigh

/-- The multiple of `10 ^ k` next to the double that reads back; of two the nearer, of two equally
near the even one. -/
def onGrid (x : Binary64) (k : Int) : Option Nat :=
  let v := x.ratio
  let scaled : Ratio := ⟨v.num * Nat.pow 10 (-k).toNat, v.den * Nat.pow 10 k.toNat⟩
  let n := scaled.num / scaled.den
  match x.readsBack n k, x.readsBack (n + 1) k with
  | true, true => some scaled.round
  | true, false => some n
  | false, true => some (n + 1)
  | false, false => none

/-- The coarsest grid with a point that reads back, searched from `10 ^ k` down over `fuel`
grids. -/
def searchGrid (x : Binary64) (k : Int) : Nat → Nat × Int
  | 0 => (x.mantissa, k)
  | fuel + 1 =>
    match x.onGrid k with
    | some n => (n, k)
    | none => x.searchGrid (k - 1) fuel

/-- The shortest decimal `n · 10 ^ k`. No double needs a grid outside `10 ^ 309` to `10 ^ -324`. -/
def shortest (x : Binary64) : Nat × Int := x.searchGrid 309 634

def zeros (n : Int) : String := .ofList (List.replicate n.toNat '0')

/-- The text of the decimal with the given digits, the last of them at `10 ^ k`. -/
def decimalText (digits : String) (k : Int) : String :=
  let point := (digits.length : Int) + k
  let lead := String.ofList (digits.toList.take point.toNat)
  let rest := String.ofList (digits.toList.drop point.toNat)
  if 0 ≤ k ∧ point ≤ 16 then digits ++ zeros k ++ ".0"
  else if 0 < point ∧ point ≤ 16 then lead ++ "." ++ rest
  else if -5 < point ∧ point ≤ 0 then "0." ++ zeros (-point) ++ digits
  else
    let first := String.ofList (digits.toList.take 1)
    let others := String.ofList (digits.toList.drop 1)
    first ++ (if others.isEmpty then "" else "." ++ others) ++ "e" ++ toString (point - 1)

/-- The text of a double. -/
def text (x : Binary64) : String :=
  let sign := if x.negative then "-" else ""
  if x.mantissa = 0 then sign ++ "0.0"
  else
    let (n, k) := x.shortest
    sign ++ decimalText (toString n) k

end MarkdownEdits.Binary64
