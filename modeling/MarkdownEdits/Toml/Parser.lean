import MarkdownEdits.Toml.Document
import MarkdownEdits.Toml.Scalars
import MarkdownEdits.Toml.Strings

/-!
# TOML documents from texts

A document is read line by line: table headers and assignments, each on a line of its own.
-/

namespace MarkdownEdits.Toml

def isBlank (c : Char) : Bool := c == ' ' || c == '\t'

def skipBlanks (cs : List Char) : List Char := cs.dropWhile isBlank

/-! ### Keys -/

def isBareKeyChar (c : Char) : Bool :=
  ('a' ≤ c && c ≤ 'z') || ('A' ≤ c && c ≤ 'Z') || ('0' ≤ c && c ≤ '9') || c == '_' || c == '-'

/-- One part of a key: bare, or a string of one line. -/
def keyPart? (cs : List Char) : Option (String × List Char) :=
  match cs.takeWhile isBareKeyChar with
  | [] => lineString? cs
  | bare => some (.ofList bare, cs.dropWhile isBareKeyChar)

/-- The parts of a key with points between them, blanks around the points and the key skipped. Each
part takes at least one character. -/
def key? : Nat → List Char → Option (List String × List Char)
  | 0, _ => none
  | fuel + 1, cs => do
    let (part, rest) ← keyPart? (skipBlanks cs)
    match skipBlanks rest with
    | '.' :: rest =>
      let (parts, rest) ← key? fuel rest
      return (part :: parts, rest)
    | rest => return ([part], rest)

/-! ### Line ends -/

/-- What follows a comment, if one starts here. Its line break is not taken. -/
def skipComment? : List Char → Option (List Char)
  | '#' :: rest =>
    let ended := rest.dropWhile isPlain
    match ended with
    | [] | '\n' :: _ | '\r' :: '\n' :: _ => some ended
    | _ => none
  | cs => some cs

/-- What follows the end of a line, blanks and a comment before it skipped. -/
def lineEnd? (cs : List Char) : Option (List Char) :=
  match skipComment? (skipBlanks cs) with
  | some [] => some []
  | some ('\n' :: rest) | some ('\r' :: '\n' :: rest) => some rest
  | _ => none

/-- Skips blanks, line ends and comments; each round takes at least one character. -/
def skipLines? : Nat → List Char → Option (List Char)
  | 0, cs => some cs
  | fuel + 1, cs =>
    match skipBlanks cs with
    | [] => some []
    | '#' :: rest => (lineEnd? ('#' :: rest)).bind (skipLines? fuel)
    | '\n' :: rest | '\r' :: '\n' :: rest => skipLines? fuel rest
    | cs => some cs

def skipSpace? (cs : List Char) : Option (List Char) := skipLines? (cs.length + 1) cs

/-! ### Values -/

def isWordChar (c : Char) : Bool := isBareKeyChar c || c == '+' || c == '.' || c == ':'

/-- A word at the front of a text. A single blank joins a date and a time. -/
def takeWord (cs : List Char) : List Char × List Char :=
  let first := cs.takeWhile isWordChar
  let rest := cs.dropWhile isWordChar
  match rest with
  | ' ' :: d :: more =>
    if dateEnd? first = some [] ∧ isDigit d then
      let second := (d :: more).takeWhile isWordChar
      (first ++ ' ' :: second, (d :: more).dropWhile isWordChar)
    else (first, rest)
  | _ => (first, rest)

/-- A value that holds no other. -/
def scalar? (cs : List Char) : Option (Value × List Char) :=
  match cs with
  | '"' :: _ | '\'' :: _ => (string? cs).map fun (s, rest) => (.string s, rest)
  | _ =>
    let (word, rest) := takeWord cs
    (word? word).map fun v => (v, rest)

/-- Items up to `close` with commas between them, and perhaps one behind the last. -/
def items? {α : Type} (item : List Char → Option (α × List Char)) (close : Char) :
    Nat → List Char → Option (List α × List Char)
  | 0, _ => none
  | fuel + 1, cs => do
    match ← skipSpace? cs with
    | [] => none
    | c :: rest =>
      if c = close then return ([], rest)
      else
        let (a, rest) ← item (c :: rest)
        match ← skipSpace? rest with
        | ',' :: rest =>
          let (as, rest) ← items? item close fuel rest
          return (a :: as, rest)
        | d :: rest => if d = close then return ([a], rest) else none
        | [] => none

/-- A key, an equals sign and a value. -/
def assignment? (value : List Char → Option (Value × List Char)) (cs : List Char) :
    Option ((List String × Value) × List Char) := do
  let (key, rest) ← key? (cs.length + 1) cs
  match rest with
  | '=' :: rest =>
    let (v, rest) ← value (skipBlanks rest)
    return ((key, v), rest)
  | _ => none

/-- The table that assignments in braces make. -/
def inlineTable? (assignments : List (List String × Value)) : Option Value := do
  let t ← assignments.foldlM (fun t (key, v) => assign key v t) ⟨.header, []⟩
  return .table .inline t.entries

/-- A value in which arrays and inline tables nest no deeper than `depth`. -/
def value? : Nat → List Char → Option (Value × List Char)
  | 0, cs => scalar? cs
  | depth + 1, cs =>
    match cs with
    | '[' :: rest =>
      (items? (value? depth) ']' (rest.length + 1) rest).map fun (vs, rest) => (.array vs, rest)
    | '\x7b' :: rest => do
      let (pairs, rest) ← items? (assignment? (value? depth)) '\x7d' (rest.length + 1) rest
      return (← inlineTable? pairs, rest)
    | cs => scalar? cs

/-- How deep arrays and inline tables may nest. -/
def maxDepth : Nat := 80

/-! ### Documents -/

/-- A header with the given number of closing brackets. -/
def header? (brackets : Nat) (cs : List Char) : Option (List String × List Char) := do
  let (key, rest) ← key? (cs.length + 1) cs
  let close := List.replicate brackets ']'
  if close.isPrefixOf rest then return (key, rest.drop brackets) else none

def statement? : List Char → Option (Statement × List Char)
  | '[' :: '[' :: rest => (header? 2 rest).map fun (key, rest) => (.tablesHeader key, rest)
  | '[' :: rest => (header? 1 rest).map fun (key, rest) => (.header key, rest)
  | cs =>
    (assignment? (value? maxDepth) cs).map fun ((key, v), rest) => (.assign key v, rest)

/-- The statements of a text; each takes at least one character. -/
def statements? : Nat → List Char → Option (List Statement)
  | 0, _ => none
  | fuel + 1, cs => do
    match ← skipSpace? cs with
    | [] => return []
    | cs =>
      let (s, rest) ← statement? cs
      let more ← statements? fuel (← lineEnd? rest)
      return s :: more

/-- The entries of the document that a text holds. A byte order mark may stand before it. -/
def parse? (text : String) : Option (List (String × Value)) := do
  let cs := match text.toList with
    | '\uFEFF' :: rest => rest
    | cs => cs
  build? (← statements? (cs.length + 1) cs)

end MarkdownEdits.Toml
