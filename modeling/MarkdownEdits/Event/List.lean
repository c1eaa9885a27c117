import MarkdownEdits.Event.Inline
import MarkdownEdits.Text.Blank

/-!
# Lists from events

A list of any nesting is flattened to the texts of its items. Nested lists stand inside the item
they belong to, so the text of an item is written out as soon as an item starts within it.
-/

namespace MarkdownEdits

structure OpenItem where
  inline : InlineBuilder := {}
  /-- Whether text of the item has been written out before a nested item. -/
  flushed : Bool := false
  deriving DecidableEq, Repr, Inhabited

/-- A list in the making. -/
structure ListBuilder where
  ordered : Bool
  items : List String := []
  /-- The items whose end has not been seen, the innermost first. -/
  openItems : List OpenItem := []
  deriving DecidableEq, Repr, Inhabited

namespace ListBuilder

/-- Whether an element that is kept as its source is open in the innermost item. -/
def inSource (b : ListBuilder) : Bool := b.openItems.head?.any fun item => item.inline.inSource

/-- Changes the run of the innermost item; without an open item nothing happens. -/
def mapInline (b : ListBuilder) (f : InlineBuilder → InlineBuilder) : ListBuilder :=
  match b.openItems with
  | [] => b
  | item :: outer => { b with openItems := { item with inline := f item.inline } :: outer }

/-- An item starts. What the item around it holds so far is written out, where it is not blank. -/
def startItem (b : ListBuilder) : ListBuilder :=
  match b.openItems with
  | [] => { b with openItems := [{}] }
  | item :: outer =>
    let text := Text.trim item.inline.plainText
    if text = "" then { b with openItems := {} :: { item with inline := {} } :: outer }
    else { b with items := b.items ++ [text], openItems := {} :: { flushed := true } :: outer }

/-- The innermost item ends. Its remaining text is written out, unless it is blank and the item has
been written out before. -/
def stopItem (b : ListBuilder) : ListBuilder :=
  match b.openItems with
  | [] => b
  | item :: outer =>
    let text := Text.trim item.inline.plainText
    if text = "" ∧ item.flushed then { b with openItems := outer }
    else { b with items := b.items ++ [text], openItems := outer }

/-- An element starts within the list; `source` is its source text. -/
def start (b : ListBuilder) (tag : Tag) (source : String) : ListBuilder :=
  if b.inSource then b.mapInline (·.start tag source)
  else match tag.kind with
    | .item => b.startItem
    | .list => b
    | .paragraph => b.mapInline (·.pushSeparator)
    | .blockQuote | .codeBlock | .htmlBlock => b.mapInline (·.pushSeparator.start tag source)
    | _ => b.mapInline (·.start tag source)

/-- An element within the list ends. -/
def stop (b : ListBuilder) (kind : TagKind) : ListBuilder :=
  if b.inSource then b.mapInline (·.stop)
  else match kind with
    | .item => b.stopItem
    | .list | .paragraph => b
    | _ => b.mapInline (·.stop)

def leaf (b : ListBuilder) (l : Leaf) (source : String) : ListBuilder :=
  b.mapInline (·.leaf l source)

end ListBuilder

end MarkdownEdits
