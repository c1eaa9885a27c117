import MarkdownEdits.Text.Slice

/-!
# Markdown events

A Markdown text is read as a stream of events: an element starts or ends, or something without an
inside stands between. Every event knows the range of source text that it covers.
-/

namespace MarkdownEdits

/-- The kinds of elements. -/
inductive TagKind
  | paragraph | heading | blockQuote | codeBlock | htmlBlock | list | item
  | table | tableHead | tableRow | tableCell
  | emphasis | strong | link | image | other
  deriving DecidableEq, Repr, Inhabited

/-- An element with what its start says about it. -/
inductive Tag
  | heading (level : Nat)
  /-- `first` is the first number of an ordered list. -/
  | list (first : Option Nat)
  | link (target : String)
  /-- An element that says nothing but its kind. -/
  | plain (kind : TagKind)
  deriving DecidableEq, Repr, Inhabited

def Tag.kind : Tag → TagKind
  | .heading _ => .heading
  | .list _ => .list
  | .link _ => .link
  | .plain kind => kind

/-- An event without an inside. -/
inductive Leaf
  | text (text : String)
  | code (text : String)
  | softBreak
  | hardBreak
  /-- HTML, thematic breaks and all else; they are known by their source alone. -/
  | other
  deriving DecidableEq, Repr, Inhabited

inductive Event
  | start (tag : Tag)
  | stop (kind : TagKind)
  | leaf (leaf : Leaf)
  deriving DecidableEq, Repr, Inhabited

/-- An event with the range of source text that it covers. -/
structure SourceEvent where
  event : Event
  range : ByteRange
  deriving DecidableEq, Repr, Inhabited

/-- A Markdown text with its event stream. -/
structure Markdown where
  text : String
  events : List SourceEvent
  deriving DecidableEq, Repr, Inhabited

end MarkdownEdits
