/-!
# TOML values

Of a float only its range is kept and of a date nothing: no setting is written in either.
-/

namespace MarkdownEdits.Toml

/-- How a table came about, which decides what may be added to it. -/
inductive Origin
  /-- Defined by its own header, or the whole document. -/
  | header
  /-- Named on the way to the header of another table. -/
  | implicit
  /-- Named by a dotted key. -/
  | dotted
  /-- Written in braces. -/
  | inline
  deriving DecidableEq, Repr, Inhabited

inductive Value
  | string (s : String)
  | integer (n : Int)
  /-- `finite` is false for digits beyond the largest double. -/
  | float (finite : Bool)
  | boolean (b : Bool)
  | date
  | array (items : List Value)
  | table (origin : Origin) (entries : List (String × Value))
  /-- Tables under double-bracket headers of one name. -/
  | tables (items : List (List (String × Value)))
  deriving Repr, Inhabited

end MarkdownEdits.Toml
