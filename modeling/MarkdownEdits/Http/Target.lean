import MarkdownEdits.Text.Blank
import MarkdownEdits.Text.Lines

/-!
# Request targets

What stands in a web address behind the host, as it goes into a request: a path without dot segments
and a query, both with the characters percent-encoded that may not stand there.
-/

namespace MarkdownEdits.Http

def upperHexDigit (n : Nat) : Char := if n < 10 then .ofNat (48 + n) else .ofNat (55 + n)

/-- The percent-encoded bytes of a character. -/
def percentEncode (c : Char) : List Char :=
  (String.singleton c).toUTF8.data.toList.flatMap fun b =>
    ['%', upperHexDigit (b.toNat / 16), upperHexDigit (b.toNat % 16)]

/-- Control characters and all beyond ASCII. -/
def isOutsideAscii (c : Char) : Bool := c.toNat < 0x20 || 0x7F ≤ c.toNat

def encodeWhere (reserved : Char → Bool) (cs : List Char) : List Char :=
  cs.flatMap fun c => if isOutsideAscii c || reserved c then percentEncode c else [c]

/-- What is encoded in a path. -/
def isPathReserved (c : Char) : Bool := " \"#<>?`\x7b\x7d".toList.contains c

/-- What is encoded in a query. -/
def isQueryReserved (c : Char) : Bool := " \"#<>'".toList.contains c

structure Target where
  path : List Char
  query : Option (List Char)
  deriving DecidableEq, Repr, Inhabited

/-- Whether a segment is `.` with its point written in either way. -/
def isDot (segment : List Char) : Bool :=
  [".", "%2e"].contains (String.ofList (segment.map Char.toLower))

/-- Whether a segment is `..` with its points written in either way. -/
def isDoubleDot (segment : List Char) : Bool :=
  ["..", ".%2e", "%2e.", "%2e%2e"].contains (String.ofList (segment.map Char.toLower))

/-- The segments between slashes of either kind. -/
def segments (path : List Char) : List (List Char) :=
  Text.split (fun c => c == '/' || c == '\\') path

/-- The segments of a path with the dot segments resolved; `above` are those before it, the last one
first. A dot segment at the end leaves an empty one. -/
def resolveDots (above : List (List Char)) : List (List Char) → List (List Char)
  | [] => above.reverse
  | s :: rest =>
    if isDoubleDot s then
      resolveDots (if rest.isEmpty then [] :: above.tail else above.tail) rest
    else if isDot s then resolveDots (if rest.isEmpty then [] :: above else above) rest
    else resolveDots (s :: above) rest

namespace Target

/-- The target in what follows the host of an address: line breaks and tabs are left out, blanks at
the end and a fragment dropped. -/
def ofAddress (rest : String) : Target :=
  let cs := Text.dropEndWhile (fun c => c.toNat ≤ 0x20) rest.toList
  let cs := cs.filter fun c => c != '\t' && c != '\n' && c != '\r'
  let cs := cs.takeWhile (· != '#')
  let path := cs.takeWhile (· != '?')
  let query := (cs.dropWhile (· != '?')).drop 1
  let inner := match segments path with
    | [] :: more => more
    | more => more
  let resolved := resolveDots [] inner
  ⟨resolved.flatMap fun s => '/' :: encodeWhere isPathReserved s,
    if cs.contains '?' then some (encodeWhere isQueryReserved query) else none⟩

/-- The target with one more query pair, which needs no encoding. -/
def addPair (t : Target) (name value : String) : Target :=
  let pair := name.toList ++ '=' :: value.toList
  { t with query :=
      match t.query with
      | none | some [] => some pair
      | some query => some (query ++ '&' :: pair) }

def text (t : Target) : String :=
  .ofList (t.path ++ match t.query with
    | none => []
    | some query => '?' :: query)

end Target

end MarkdownEdits.Http
