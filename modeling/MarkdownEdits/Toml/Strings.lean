/-!
# TOML strings

The four kinds of strings. A string is first read up to its closing quotes as it is written, then
its escapes are replaced.
-/

namespace MarkdownEdits.Toml

/-- Whether a character may stand in strings and comments: no control character but the tab. -/
def isPlain (c : Char) : Bool := c == '\t' || (0x20 ≤ c.toNat && c.toNat != 0x7F)

/-- The characters up to the closing `quote` of a string on one line. With `escapes`, a backslash
keeps the next character from closing it. -/
def lineBody (quote : Char) (escapes : Bool) : List Char → Option (List Char × List Char)
  | [] => none
  | '\\' :: c :: rest =>
    if escapes then
      if isPlain c then
        (lineBody quote escapes rest).map fun (body, rest) => ('\\' :: c :: body, rest)
      else none
    else (lineBody quote escapes (c :: rest)).map fun (body, rest) => ('\\' :: body, rest)
  | c :: rest =>
    if c = quote then some ([], rest)
    else if isPlain c then (lineBody quote escapes rest).map fun (body, rest) => (c :: body, rest)
    else none

/-- What three closing quotes leave of up to two more behind them: those belong to the string. -/
def closing (quote : Char) (rest : List Char) : List Char × List Char :=
  let more := (rest.take 2).takeWhile (· == quote)
  (more, rest.drop more.length)

/-- The characters up to three closing quotes. Line breaks may stand in the string, a carriage
return only before a line feed. -/
def blockBody (quote : Char) (escapes : Bool) : List Char → Option (List Char × List Char)
  | [] => none
  | '\r' :: '\n' :: rest =>
    (blockBody quote escapes rest).map fun (body, rest) => ('\n' :: body, rest)
  | '\\' :: c :: rest =>
    if escapes && c != '\r' then
      if isPlain c || c == '\n' then
        (blockBody quote escapes rest).map fun (body, rest) => ('\\' :: c :: body, rest)
      else none
    else (blockBody quote escapes (c :: rest)).map fun (body, rest) => ('\\' :: body, rest)
  | c :: rest =>
    if c = quote && [quote, quote].isPrefixOf rest then some (closing quote (rest.drop 2))
    else if isPlain c || c == '\n' then
      (blockBody quote escapes rest).map fun (body, rest) => (c :: body, rest)
    else none

/-- The value of hexadecimal digits. -/
def hexNumber? (cs : List Char) : Option Nat :=
  cs.foldlM (fun n c =>
    if '0' ≤ c ∧ c ≤ '9' then some (n * 16 + (c.toNat - 48))
    else if 'a' ≤ c ∧ c ≤ 'f' then some (n * 16 + (c.toNat - 87))
    else if 'A' ≤ c ∧ c ≤ 'F' then some (n * 16 + (c.toNat - 55))
    else none) 0

/-- The character whose code is written in the next `count` digits. -/
def codePoint? (count : Nat) (cs : List Char) : Option (Char × List Char) := do
  let digits := cs.take count
  let n ← if digits.length = count then hexNumber? digits else none
  if n < 0xD800 ∨ (0xDFFF < n ∧ n ≤ 0x10FFFF) then return (.ofNat n, cs.drop count) else none

/-- The character that stands behind a backslash, and what follows it. -/
def escaped? : List Char → Option (Char × List Char)
  | 'b' :: rest => some ('\x08', rest)
  | 't' :: rest => some ('\t', rest)
  | 'n' :: rest => some ('\n', rest)
  | 'f' :: rest => some ('\x0c', rest)
  | 'r' :: rest => some ('\r', rest)
  | 'e' :: rest => some ('\x1b', rest)
  | '"' :: rest => some ('"', rest)
  | '\\' :: rest => some ('\\', rest)
  | 'x' :: rest => codePoint? 2 rest
  | 'u' :: rest => codePoint? 4 rest
  | 'U' :: rest => codePoint? 8 rest
  | _ => none

/-- What follows a backslash at the end of a line, without the blanks and line breaks that it
joins. -/
def joinedLine? (cs : List Char) : Option (List Char) :=
  match cs.dropWhile fun c => c == ' ' || c == '\t' with
  | '\n' :: rest => some (rest.dropWhile fun c => c == ' ' || c == '\t' || c == '\n')
  | _ => none

/-- The characters that are written in a body; each step takes at least one, so `fuel` need not
exceed their number. -/
def unescape (multiline : Bool) : Nat → List Char → Option (List Char)
  | _, [] => some []
  | 0, _ => none
  | fuel + 1, '\\' :: rest =>
    match (if multiline then joinedLine? rest else none) with
    | some rest => unescape multiline fuel rest
    | none => do
      let (c, rest) ← escaped? rest
      let cs ← unescape multiline fuel rest
      return c :: cs
  | fuel + 1, c :: rest => (unescape multiline fuel rest).map (c :: ·)

/-- A line break right behind the opening quotes is not part of a string. -/
def withoutFirstBreak : List Char → List Char
  | '\r' :: '\n' :: rest => rest
  | '\n' :: rest => rest
  | cs => cs

/-- A string of one line. -/
def lineString? : List Char → Option (String × List Char)
  | '"' :: rest => do
    let (body, rest) ← lineBody '"' true rest
    let cs ← unescape false body.length body
    return (.ofList cs, rest)
  | '\'' :: rest => (lineBody '\'' false rest).map fun (body, rest) => (.ofList body, rest)
  | _ => none

/-- A string of any kind. -/
def string? : List Char → Option (String × List Char)
  | '"' :: '"' :: '"' :: rest => do
    let (body, rest) ← blockBody '"' true (withoutFirstBreak rest)
    let cs ← unescape true body.length body
    return (.ofList cs, rest)
  | '\'' :: '\'' :: '\'' :: rest =>
    (blockBody '\'' false (withoutFirstBreak rest)).map fun (body, rest) => (.ofList body, rest)
  | cs => lineString? cs

end MarkdownEdits.Toml
