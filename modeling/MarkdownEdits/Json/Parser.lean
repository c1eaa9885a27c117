import MarkdownEdits.Json.Basic

/-!
# JSON values from texts

A reader takes a value off the front of a list of characters and hands back the rest; `none` means
that no value stands there. Objects come out sorted, and the last of equally named members counts.
Arrays and objects nest to a fixed depth.
-/

namespace MarkdownEdits.Json

/-- The blanks of the format: space, tab, line feed and carriage return. -/
def isSpace (c : Char) : Bool := c == ' ' || c == '\t' || c == '\n' || c == '\r'

def skipSpaces (cs : List Char) : List Char := cs.dropWhile isSpace

/-! ### Strings -/

def hexValue? (c : Char) : Option Nat :=
  if '0' ≤ c ∧ c ≤ '9' then some (c.toNat - 48)
  else if 'a' ≤ c ∧ c ≤ 'f' then some (c.toNat - 87)
  else if 'A' ≤ c ∧ c ≤ 'F' then some (c.toNat - 55)
  else none

/-- The code unit of four hexadecimal digits. -/
def hexUnit? (a b c d : Char) : Option Nat := do
  return (← hexValue? a) * 0x1000 + (← hexValue? b) * 0x100 + (← hexValue? c) * 0x10 + (← hexValue? d)

/-- The character that a backslash and a letter stand for. -/
def unescape? : Char → Option Char
  | '"' => some '"'
  | '\\' => some '\\'
  | '/' => some '/'
  | 'b' => some '\x08'
  | 'f' => some '\x0c'
  | 'n' => some '\n'
  | 'r' => some '\r'
  | 't' => some '\t'
  | _ => none

/-- The characters up to the closing quote, and what follows it. `high` is a leading surrogate that
its other half has to follow at once. -/
def stringBody : Option Nat → List Char → Option (List Char × List Char)
  | high, '\\' :: 'u' :: a :: b :: c :: d :: rest =>
    match high, hexUnit? a b c d with
    | _, none => none
    | none, some unit =>
      if 0xD800 ≤ unit ∧ unit < 0xDC00 then stringBody (some unit) rest
      else if 0xDC00 ≤ unit ∧ unit < 0xE000 then none
      else (stringBody none rest).map fun (cs, rest) => (.ofNat unit :: cs, rest)
    | some high, some low =>
      if 0xDC00 ≤ low ∧ low < 0xE000 then
        (stringBody none rest).map fun (cs, rest) =>
          (.ofNat (0x10000 + (high - 0xD800) * 0x400 + (low - 0xDC00)) :: cs, rest)
      else none
  | none, '\\' :: e :: rest =>
    match unescape? e with
    | some c => (stringBody none rest).map fun (cs, rest) => (c :: cs, rest)
    | none => none
  | none, c :: rest =>
    if c = '"' then some ([], rest)
    else if c.toNat < 0x20 then none
    else (stringBody none rest).map fun (cs, rest) => (c :: cs, rest)
  | _, _ => none

/-! ### Numbers -/

def isDigit (c : Char) : Bool := '0' ≤ c && c ≤ '9'

def digitValue (c : Char) : Nat := c.toNat - 48

def natOfDigits (ds : List Char) : Nat := ds.foldl (fun n d => n * 10 + digitValue d) 0

/-- Appends digits to a number as long as it stays below `2 ^ 64`: the number, and how many digits
it took. -/
def appendDigits (n : Nat) : List Char → Nat × Nat
  | [] => (n, 0)
  | d :: ds =>
    if n * 10 + digitValue d < 1 <<< 64 then
      let (m, k) := appendDigits (n * 10 + digitValue d) ds
      (m, k + 1)
    else (n, 0)

/-- The sign and digits behind an exponent mark. -/
def exponent? (cs : List Char) : Option (Int × List Char) :=
  let (negative, cs) : Bool × List Char :=
    match cs with
    | '+' :: cs => (false, cs)
    | '-' :: cs => (true, cs)
    | cs => (false, cs)
  match cs.takeWhile isDigit with
  | [] => none
  | ds =>
    let n : Int := natOfDigits ds
    some (if negative then -n else n, cs.dropWhile isDigit)

/-- The exponent behind a number, zero if there is none. -/
def optionalExponent? : List Char → Option (Int × List Char)
  | 'e' :: cs | 'E' :: cs => exponent? cs
  | cs => some (0, cs)

/-- A number that is not written as an integer, or is too large for one. Digits that do not fit into
64 bits are dropped: those before the point still count as places. -/
def double? (negative : Bool) (whole fraction : List Char) (exponent : Int) : Option JsonNumber :=
  let (n, k) := appendDigits 0 whole
  let (m, j) := appendDigits n fraction
  let x := Binary64.scale10 m ((whole.length - k : Nat) - j + exponent)
  x.map fun x => .double (if negative then x.neg else x)

/-- An integer, where the sign and digits give one. There is no negative zero. -/
def integer? (negative : Bool) (n : Nat) : Option JsonNumber :=
  if negative then (if 0 < n ∧ n ≤ 1 <<< 63 then some (.int (-n)) else none)
  else if n < 1 <<< 64 then some (.int n) else none

/-- The unsigned part of a number. -/
def magnitude? (negative : Bool) (cs : List Char) : Option (JsonNumber × List Char) :=
  let whole := cs.takeWhile isDigit
  let rest := cs.dropWhile isDigit
  if whole.isEmpty ∨ (whole.head? = some '0' ∧ 1 < whole.length) then none
  else
    match rest with
    | '.' :: rest =>
      let fraction := rest.takeWhile isDigit
      if fraction.isEmpty then none
      else do
        let (exponent, rest) ← optionalExponent? (rest.dropWhile isDigit)
        let n ← double? negative whole fraction exponent
        return (n, rest)
    | 'e' :: rest | 'E' :: rest => do
      let (exponent, rest) ← exponent? rest
      let n ← double? negative whole [] exponent
      return (n, rest)
    | rest => do
      let n ← (integer? negative (natOfDigits whole)).orElse fun _ => double? negative whole [] 0
      return (n, rest)

def number? : List Char → Option (JsonNumber × List Char)
  | '-' :: cs => magnitude? true cs
  | cs => magnitude? false cs

/-! ### Values -/

/-- A value without an inside. -/
def scalar? : List Char → Option (Json × List Char)
  | 'n' :: 'u' :: 'l' :: 'l' :: rest => some (.null, rest)
  | 't' :: 'r' :: 'u' :: 'e' :: rest => some (.bool true, rest)
  | 'f' :: 'a' :: 'l' :: 's' :: 'e' :: rest => some (.bool false, rest)
  | '"' :: rest => (stringBody none rest).map fun (cs, rest) => (.string (.ofList cs), rest)
  | cs => (number? cs).map fun (n, rest) => (.number n, rest)

/-- One or more items with commas between them and `close` behind the last. An item takes at least
one character, so `fuel` need not exceed the length of the text. -/
def sequence {α : Type} (item : List Char → Option (α × List Char)) (close : Char) :
    Nat → List Char → Option (List α × List Char)
  | 0, _ => none
  | fuel + 1, cs => do
    let (a, rest) ← item cs
    match skipSpaces rest with
    | ',' :: rest =>
      let (as, rest) ← sequence item close fuel rest
      return (a :: as, rest)
    | c :: rest => if c = close then return ([a], rest) else none
    | [] => none

/-- Items, or none, up to `close`. -/
def delimited {α : Type} (item : List Char → Option (α × List Char)) (close : Char)
    (cs : List Char) : Option (List α × List Char) :=
  match skipSpaces cs with
  | [] => none
  | c :: rest => if c = close then some ([], rest) else sequence item close cs.length cs

/-- A quoted name, a colon and a value. -/
def namedValue (value : List Char → Option (Json × List Char)) (cs : List Char) :
    Option ((String × Json) × List Char) :=
  match skipSpaces cs with
  | '"' :: rest => do
    let (name, rest) ← stringBody none rest
    match skipSpaces rest with
    | ':' :: rest =>
      let (v, rest) ← value rest
      return ((.ofList name, v), rest)
    | _ => none
  | _ => none

/-- A value in which arrays and objects nest no deeper than `depth`, blanks before it skipped. -/
def value? (depth : Nat) (cs : List Char) : Option (Json × List Char) :=
  match depth with
  | 0 => scalar? (skipSpaces cs)
  | depth + 1 =>
    match skipSpaces cs with
    | '[' :: rest => (delimited (value? depth) ']' rest).map fun (vs, rest) => (.array vs, rest)
    | '\x7b' :: rest =>
      (delimited (namedValue (value? depth)) '\x7d' rest).map fun (ms, rest) =>
        (.object (sortMembers ms), rest)
    | cs => scalar? cs

/-- How deep arrays and objects may nest. -/
def maxDepth : Nat := 127

/-- The value that a text holds, with nothing but blanks around it. -/
def parse? (text : String) : Option Json :=
  match value? maxDepth text.toList with
  | some (v, rest) => if (skipSpaces rest).isEmpty then some v else none
  | none => none

end MarkdownEdits.Json
