import MarkdownEdits.Number.Binary64
import MarkdownEdits.Toml.Value

/-!
# TOML scalars

Booleans, numbers and dates: what a word without quotes may stand for.
-/

namespace MarkdownEdits.Toml

def isDigit (c : Char) : Bool := '0' ≤ c && c ≤ '9'

def isHexDigit (c : Char) : Bool := isDigit c || ('a' ≤ c && c ≤ 'f') || ('A' ≤ c && c ≤ 'F')

def digitValue (c : Char) : Nat :=
  if isDigit c then c.toNat - 48 else if 'a' ≤ c then c.toNat - 87 else c.toNat - 55

/-- Digits with single underscores between them, the underscores left out. -/
def digits? (isDigit : Char → Bool) : List Char → Option (List Char)
  | [] => none
  | [c] => if isDigit c then some [c] else none
  | c :: '_' :: rest => if isDigit c then (digits? isDigit rest).map (c :: ·) else none
  | c :: rest => if isDigit c then (digits? isDigit rest).map (c :: ·) else none

def natOfDigits (radix : Nat) (ds : List Char) : Nat :=
  ds.foldl (fun n d => n * radix + digitValue d) 0

/-- A sign, and whether it is a minus. -/
def sign : List Char → Bool × List Char
  | '+' :: rest => (false, rest)
  | '-' :: rest => (true, rest)
  | cs => (false, cs)

/-- Decimal digits without a leading zero. -/
def decimal? (cs : List Char) : Option (List Char) := do
  let ds ← digits? isDigit cs
  if ds.head? = some '0' ∧ 1 < ds.length then none else return ds

def integer? : List Char → Option Int
  | '0' :: 'x' :: rest => (digits? isHexDigit rest).map fun ds => natOfDigits 16 ds
  | '0' :: 'o' :: rest =>
    (digits? (fun c => '0' ≤ c && c ≤ '7') rest).map fun ds => natOfDigits 8 ds
  | '0' :: 'b' :: rest =>
    (digits? (fun c => c == '0' || c == '1') rest).map fun ds => natOfDigits 2 ds
  | cs =>
    let (negative, cs) := sign cs
    (decimal? cs).map fun ds =>
      let n : Int := natOfDigits 10 ds
      if negative then -n else n

/-- Whether the number with the given digits, the last of them at `10 ^ exponent`, is no larger than
the largest double. -/
def inRange (digits : List Char) (exponent : Int) : Bool :=
  let n := natOfDigits 10 digits
  n == 0 || digits.length + exponent ≤ 0 ||
    (exponent ≤ 308 &&
      (Binary64.ofRatio false ⟨n * Nat.pow 10 exponent.toNat, Nat.pow 10 (-exponent).toNat⟩).isSome)

def isExponentMark (c : Char) : Bool := c == 'e' || c == 'E'

/-- A float; the result says whether it is in range. -/
def float? (cs : List Char) : Option Bool :=
  let (_, body) := sign cs
  if body = "inf".toList ∨ body = "nan".toList then some true
  else do
    let mantissa := body.takeWhile fun c => !isExponentMark c
    let exponentPart := body.dropWhile fun c => !isExponentMark c
    let whole ← decimal? (mantissa.takeWhile (· != '.'))
    let fraction ← match mantissa.dropWhile (· != '.') with
      | [] => if exponentPart.isEmpty then none else some []
      | _ :: rest => digits? isDigit rest
    let exponent : Int ← match exponentPart with
      | [] => some 0
      | _ :: rest =>
        let (negative, ds) := sign rest
        (digits? isDigit ds).map fun ds =>
          let n : Int := natOfDigits 10 ds
          if negative then -n else n
    return inRange (whole ++ fraction) (exponent - fraction.length)

/-! ### Dates and times -/

/-- The number in the next `count` characters, all of them digits. -/
def fixedNumber? (count : Nat) (cs : List Char) : Option (Nat × List Char) :=
  let ds := cs.take count
  if ds.length = count ∧ ds.all isDigit then some (natOfDigits 10 ds, cs.drop count) else none

/-- What follows the given character. -/
def after? (c : Char) : List Char → Option (List Char)
  | d :: rest => if d = c then some rest else none
  | [] => none

def daysOfMonth (year month : Nat) : Nat :=
  if month = 2 then
    if year % 4 = 0 ∧ (year % 100 ≠ 0 ∨ year % 400 = 0) then 29 else 28
  else if month = 4 ∨ month = 6 ∨ month = 9 ∨ month = 11 then 30
  else 31

/-- A calendar date, and what follows it. -/
def dateEnd? (cs : List Char) : Option (List Char) := do
  let (year, cs) ← fixedNumber? 4 cs
  let (month, cs) ← fixedNumber? 2 (← after? '-' cs)
  let (day, cs) ← fixedNumber? 2 (← after? '-' cs)
  if 1 ≤ month ∧ month ≤ 12 ∧ 1 ≤ day ∧ day ≤ daysOfMonth year month then return cs else none

/-- A time of day, and what follows it. Seconds may be left out, and may have a fraction. -/
def timeEnd? (cs : List Char) : Option (List Char) := do
  let (hour, cs) ← fixedNumber? 2 cs
  let (minute, cs) ← fixedNumber? 2 (← after? ':' cs)
  if 23 < hour ∨ 59 < minute then none
  else match cs with
    | ':' :: rest =>
      let (second, rest) ← fixedNumber? 2 rest
      if 60 < second then none
      else match rest with
        | '.' :: rest =>
          if (rest.takeWhile isDigit).isEmpty then none else return rest.dropWhile isDigit
        | rest => return rest
    | cs => return cs

/-- The rest of a date with a time: nothing, or the distance from universal time. -/
def isOffset : List Char → Bool
  | [] | ['Z'] | ['z'] => true
  | c :: rest =>
    (c == '+' || c == '-') &&
      ((do
        let (hour, cs) ← fixedNumber? 2 rest
        let (minute, cs) ← fixedNumber? 2 (← after? ':' cs)
        return hour ≤ 23 && minute ≤ 59 && cs.isEmpty) : Option Bool) == some true

/-- Whether a word is a date, a time, or a date with a time. -/
def isDate (cs : List Char) : Bool :=
  timeEnd? cs == some [] ||
    match dateEnd? cs with
    | none => false
    | some [] => true
    | some (c :: rest) => (c == 'T' || c == 't' || c == ' ') && (timeEnd? rest).any isOffset

/-- The value of a word. -/
def word? (cs : List Char) : Option Value :=
  if cs = "true".toList then some (.boolean true)
  else if cs = "false".toList then some (.boolean false)
  else match integer? cs with
    | some n => some (.integer n)
    | none =>
      match float? cs with
      | some finite => some (.float finite)
      | none => if isDate cs then some .date else none

end MarkdownEdits.Toml
