import MarkdownEdits.Base64.Basic
import MarkdownEdits.Text.Blank
import MarkdownEdits.Text.Lines
import MarkdownEdits.Text.Slice

/-!
# Recognising base64

A text is taken for base64 by its shape: without blanks it is whole groups of symbols with at most
two `=` at the end, and if it has several lines they are as wide as wrapped base64 is.
-/

namespace MarkdownEdits

/-- The UTF-8 bytes of a text. -/
def Text.bytes (s : String) : List UInt8 := s.toUTF8.data.toList

namespace Payload

/-- The least width of the lines of a wrapped text. -/
def minLineWidth : Nat := 16

/-- Whether symbols fill whole groups, the padding at the end counted. -/
def fillsGroups (symbols : List UInt8) : Bool :=
  let body := Text.dropEndWhile (· == Base64.pad) symbols
  symbols.length % 4 == 0 && symbols.length - body.length ≤ 2 && !body.isEmpty &&
    body.all fun b => (Base64.value? b).isSome

/-- Whether lines are as wide as each other, the last one left aside, and wide enough. -/
def uniformWidth (widths : List Nat) : Bool :=
  match widths with
  | [] | [_] => true
  | width :: _ => minLineWidth ≤ width && widths.dropLast.all (· == width)

def looksLikeBase64 (text : String) : Bool :=
  let lines := (Text.lines text.toList).filter fun line => !line.isEmpty
  fillsGroups (Text.bytes (Text.withoutBlanks text)) && uniformWidth (lines.map Text.byteLength)

end Payload

end MarkdownEdits
