import MarkdownEdits.Event.List
import MarkdownEdits.Event.Table

/-!
# Blocks from events

The element at the outermost level decides what the events inside it add to, and which token they
become.
-/

namespace MarkdownEdits

namespace Text

/-- A range that starts behind nothing but spaces and tabs starts at the head of its line. -/
def withIndent (source : String) (r : ByteRange) : Except BadSlice ByteRange := do
  let before ← slice source ⟨0, r.start⟩
  let head := takeEndWhile (· != '\n') before.toList
  return if head.all fun c => c == ' ' || c == '\t' then ⟨r.start - byteLength head, r.stop⟩ else r

/-- A text that ends its line, if there is any text. -/
def withLineEnd (text : String) : String :=
  if text.toList.getLast?.all (· == '\n') then text else text ++ "\n"

end Text

/-- A block in the making. -/
inductive OpenBlock
  | heading (depth : Nat) (inline : InlineBuilder)
  | paragraph (range : ByteRange) (inline : InlineBuilder)
  | list (items : ListBuilder)
  | table (cells : TableBuilder)
  | raw (range : ByteRange)
  deriving DecidableEq, Repr, Inhabited

namespace OpenBlock

/-- The block that an element at the outermost level opens. -/
def ofTag (source : String) (tag : Tag) (range : ByteRange) : Except BadSlice OpenBlock :=
  match tag with
  | .heading level => .ok (.heading level {})
  | .plain .paragraph => .ok (.paragraph range {})
  | .list first => .ok (.list { ordered := first.isSome })
  | .plain .table => .ok (.table {})
  | _ => (Text.withIndent source range).map .raw

/-- An element starts within the block; `source` is its source text. -/
def start (tag : Tag) (source : String) : OpenBlock → OpenBlock
  | .heading depth inline => .heading depth (inline.start tag source)
  | .paragraph range inline => .paragraph range (inline.start tag source)
  | .list items => .list (items.start tag source)
  | .table cells => .table (cells.start tag source)
  | .raw range => .raw range

/-- An element within the block ends. -/
def stop (kind : TagKind) : OpenBlock → OpenBlock
  | .heading depth inline => .heading depth inline.stop
  | .paragraph range inline => .paragraph range inline.stop
  | .list items => .list (items.stop kind)
  | .table cells => .table (cells.stop kind)
  | .raw range => .raw range

def leaf (l : Leaf) (source : String) : OpenBlock → OpenBlock
  | .heading depth inline => .heading depth (inline.leaf l source)
  | .paragraph range inline => .paragraph range (inline.leaf l source)
  | .list items => .list (items.leaf l source)
  | .table cells => .table (cells.leaf l source)
  | .raw range => .raw range

/-- The token that the block has become. -/
def token (source : String) : OpenBlock → Except BadSlice BlockToken
  | .heading depth inline => .ok (.heading (Text.trim inline.plainText) depth)
  | .paragraph range inline => do
    let text ← Text.slice source range
    return .paragraph (Text.trimLineBreaks text) (some inline.finish)
  | .list items => .ok (.list items.items items.ordered)
  | .table cells => .ok (.table cells.header cells.rows)
  | .raw range => do
    let text ← Text.slice source range
    return .raw (Text.withLineEnd text)

end OpenBlock

end MarkdownEdits
