import MarkdownEdits.Event.Basic
import MarkdownEdits.Json.Parser

/-!
# Events from JSON

Event streams come from a Markdown parser as JSON: an array of events, each an array of its name,
the bounds of its range, and what else its kind has to say.
-/

namespace MarkdownEdits

def TagKind.names : List (String × TagKind) := [
  ("paragraph", .paragraph), ("heading", .heading), ("block_quote", .blockQuote),
  ("code_block", .codeBlock), ("html_block", .htmlBlock), ("list", .list), ("item", .item),
  ("table", .table), ("table_head", .tableHead), ("table_row", .tableRow),
  ("table_cell", .tableCell), ("emphasis", .emphasis), ("strong", .strong), ("link", .link),
  ("image", .image)]

def TagKind.ofName (name : String) : TagKind := (names.lookup name).getD .other

/-- The tag of a kind: a heading comes with its level, a list with its first number or null, and a
link with its target. -/
def Tag.ofJson? (kind : TagKind) (details : List Json) : Option Tag :=
  match kind, details with
  | .heading, level :: _ => level.nat?.map .heading
  | .heading, [] => none
  | .list, .null :: _ => some (.list none)
  | .list, first :: _ => first.nat?.map fun n => .list (some n)
  | .list, [] => none
  | .link, target :: _ => target.string?.map .link
  | .link, [] => none
  | kind, _ => some (.plain kind)

def Event.ofJson? (name : String) (details : List Json) : Option Event :=
  match name, details with
  | "start", kind :: details => do
    return .start (← Tag.ofJson? (.ofName (← kind.string?)) details)
  | "end", kind :: _ => kind.string?.map fun name => .stop (.ofName name)
  | "text", text :: _ => text.string?.map fun s => .leaf (.text s)
  | "code", text :: _ => text.string?.map fun s => .leaf (.code s)
  | "soft_break", _ => some (.leaf .softBreak)
  | "hard_break", _ => some (.leaf .hardBreak)
  | "start", [] | "end", [] | "text", [] | "code", [] => none
  | _, _ => some (.leaf .other)

def SourceEvent.ofJson? : Json → Option SourceEvent
  | .array (name :: start :: stop :: details) => do
    return ⟨← Event.ofJson? (← name.string?) details, ⟨← start.nat?, ← stop.nat?⟩⟩
  | _ => none

/-- The event stream of a JSON text. -/
def eventsOfJson? (text : String) : Option (List SourceEvent) := do
  (← (← Json.parse? text).array?).mapM SourceEvent.ofJson?

end MarkdownEdits
