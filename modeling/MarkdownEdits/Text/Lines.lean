/-!
# Lines and parts

The lines of a text, and texts within texts.
-/

namespace MarkdownEdits.Text

/-- The lines of a text. A line ends before a line feed, or before a carriage return and a line
feed; what follows the last line feed is a line unless it is empty. -/
def lines : List Char → List (List Char)
  | [] => []
  | '\r' :: '\n' :: rest => [] :: lines rest
  | c :: rest =>
    if c = '\n' then [] :: lines rest
    else match lines rest with
      | [] => [[c]]
      | line :: more => (c :: line) :: more

/-- The parts between the separators, of which there is one more than separators. -/
def split (isSeparator : Char → Bool) : List Char → List (List Char)
  | [] => [[]]
  | c :: rest =>
    if isSeparator c then [] :: split isSeparator rest
    else match split isSeparator rest with
      | [] => [[c]]
      | part :: more => (c :: part) :: more

/-- Whether `part` stands somewhere in a list of characters. -/
def hasPart (part : List Char) : List Char → Bool
  | [] => part.isEmpty
  | c :: cs => part.isPrefixOf (c :: cs) || hasPart part cs

end MarkdownEdits.Text
