/-!
# Table text

A table is written as lines of plain text for a monospaced font: the header, a divider with one
dash cell per header cell, then the rows. Every line opens with `| ` and every cell, the last one
included, is followed by ` | `; a row has the cells it has.
-/

namespace MarkdownEdits.Table

/-- One line of cells. -/
def line (cells : List String) : String :=
  "| " ++ cells.foldr (fun cell rest => cell ++ " | " ++ rest) "\n"

/-- The line under the header. -/
def divider (header : List String) : String := line (header.map fun _ => "---")

/-- The text of a table. -/
def render (header : List String) (rows : List (List String)) : String :=
  line header ++ divider header ++ rows.foldr (fun row rest => line row ++ rest) ""

end MarkdownEdits.Table
