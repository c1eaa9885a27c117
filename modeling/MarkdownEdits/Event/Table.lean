import MarkdownEdits.Event.Inline
import MarkdownEdits.Text.Blank

/-!
# Tables from events

Cells gather in a row; the end of the head makes the row the header, the end of a row adds it to
the rows.
-/

namespace MarkdownEdits

/-- A table in the making. -/
structure TableBuilder where
  header : List String := []
  rows : List (List String) := []
  row : List String := []
  cell : Option InlineBuilder := none
  deriving DecidableEq, Repr, Inhabited

namespace TableBuilder

/-- Changes the open cell; without one nothing happens. -/
def mapCell (b : TableBuilder) (f : InlineBuilder → InlineBuilder) : TableBuilder :=
  { b with cell := b.cell.map f }

/-- An element starts within the table; `source` is its source text. -/
def start (b : TableBuilder) (tag : Tag) (source : String) : TableBuilder :=
  match tag.kind with
  | .tableHead | .tableRow => b
  | .tableCell => { b with cell := some {} }
  | _ => b.mapCell (·.start tag source)

/-- An element within the table ends. -/
def stop (b : TableBuilder) (kind : TagKind) : TableBuilder :=
  match kind with
  | .tableHead => { b with header := b.row, row := [] }
  | .tableRow => { b with rows := b.rows ++ [b.row], row := [] }
  | .tableCell =>
    match b.cell with
    | some cell => { b with row := b.row ++ [Text.trim cell.plainText], cell := none }
    | none => b
  | _ => b.mapCell (·.stop)

def leaf (b : TableBuilder) (l : Leaf) (source : String) : TableBuilder :=
  b.mapCell (·.leaf l source)

end TableBuilder

end MarkdownEdits
