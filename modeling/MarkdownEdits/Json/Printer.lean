import MarkdownEdits.Json.Basic
import MarkdownEdits.Number.Shortest

/-!
# JSON texts from values

The compact text has no blanks; the indented one has two spaces a level and an empty array or object
on one line. Both keep the members of an object in the order given.
-/

namespace MarkdownEdits

def JsonNumber.text : JsonNumber → String
  | .int n => toString n
  | .double x => x.text

namespace Json

def hexDigit (n : Nat) : Char := if n < 10 then .ofNat (48 + n) else .ofNat (87 + n)

/-- The characters for one character of a quoted string. Only quotes, backslashes and the characters
below U+0020 are escaped. -/
def escape (c : Char) : List Char :=
  if c = '"' then ['\\', '"']
  else if c = '\\' then ['\\', '\\']
  else if c.toNat < 0x20 then
    match c.toNat with
    | 8 => ['\\', 'b']
    | 9 => ['\\', 't']
    | 10 => ['\\', 'n']
    | 12 => ['\\', 'f']
    | 13 => ['\\', 'r']
    | n => ['\\', 'u', '0', '0', hexDigit (n / 16), hexDigit (n % 16)]
  else [c]

def quote (s : String) : List Char := '"' :: s.toList.flatMap escape ++ ['"']

/-- The characters of a value without an inside. -/
def scalarChars : Json → List Char
  | .null => "null".toList
  | .bool b => if b then "true".toList else "false".toList
  | .number n => n.text.toList
  | .string s => quote s
  | .array _ => "[]".toList
  | .object _ => "\x7b\x7d".toList

mutual

def compactChars : Json → List Char
  | .array (v :: vs) => '[' :: (compactChars v ++ compactItems vs)
  | .object ((n, v) :: ms) => '\x7b' :: (quote n ++ ':' :: compactChars v ++ compactMembers ms)
  | v => scalarChars v

/-- The items behind the first one of an array, with its closing bracket. -/
def compactItems : List Json → List Char
  | [] => [']']
  | v :: vs => ',' :: (compactChars v ++ compactItems vs)

/-- The members behind the first one of an object, with its closing brace. -/
def compactMembers : List (String × Json) → List Char
  | [] => ['\x7d']
  | (n, v) :: ms => ',' :: (quote n ++ ':' :: compactChars v ++ compactMembers ms)

end

/-- A line break with the indentation of a level. -/
def newLine (level : Nat) : List Char := '\n' :: List.replicate (2 * level) ' '

mutual

/-- The characters of a value that stands at an indentation level. -/
def indentedChars (level : Nat) : Json → List Char
  | .array (v :: vs) =>
    '[' :: newLine (level + 1) ++ indentedChars (level + 1) v ++ indentedItems level vs
  | .object ((n, v) :: ms) =>
    '\x7b' :: newLine (level + 1) ++ quote n ++ ':' :: ' ' :: indentedChars (level + 1) v ++
      indentedMembers level ms
  | v => scalarChars v

def indentedItems (level : Nat) : List Json → List Char
  | [] => newLine level ++ [']']
  | v :: vs => ',' :: newLine (level + 1) ++ indentedChars (level + 1) v ++ indentedItems level vs

def indentedMembers (level : Nat) : List (String × Json) → List Char
  | [] => newLine level ++ ['\x7d']
  | (n, v) :: ms =>
    ',' :: newLine (level + 1) ++ quote n ++ ':' :: ' ' :: indentedChars (level + 1) v ++
      indentedMembers level ms

end

/-- The text of a value without blanks. -/
def compact (v : Json) : String := .ofList v.compactChars

/-- The text of a value with one member or item a line. -/
def indented (v : Json) : String := .ofList (indentedChars 0 v)

end Json

end MarkdownEdits
