import MarkdownEdits.Compilation.Basic
import MarkdownEdits.Paragraph
import MarkdownEdits.Table

/-!
# Drafts

A draft is a compilation in the making: a cursor at the offset where the next text goes, the edits
so far and the records of the closed blocks. `BlockToken.lower` says which edits a block adds at a
cursor. It looks at no other block: the cursor is all that one block hands to the next.
-/

namespace MarkdownEdits

/-- The offset at which the next text is inserted. -/
structure Cursor where
  offset : Nat
  deriving DecidableEq, Repr, Inhabited

namespace Cursor

def advance (c : Cursor) (n : Nat) : Cursor := ⟨c.offset + n⟩

/-- The range that `text` takes up when it is inserted at the cursor. -/
def rangeOf (c : Cursor) (text : String) : TextRange := .ofLength c.offset (Text.utf16Length text)

/-- The cursor behind an inserted `text`. -/
def advanceOver (c : Cursor) (text : String) : Cursor := c.advance (Text.utf16Length text)

end Cursor

/-- One bullet line per item, from the cursor on. -/
def lowerItems (preset : String) (c : Cursor) : List String → Cursor × List Edit
  | [] => (c, [])
  | item :: rest =>
    let text := item ++ "\n"
    let (last, edits) := lowerItems preset (c.advanceOver text) rest
    (last, .insertText text :: .listBullet preset (c.rangeOf text) :: edits)

/-- The edits that put a block into the document at the cursor, and the cursor behind it. The text
of a line comes before the styles over it, and every range is measured from the inserted text. -/
def BlockToken.lower (o : Options) (c : Cursor) : BlockToken → Cursor × List Edit
  | .heading text depth =>
    let text := text ++ "\n"
    (c.advanceOver text,
      [.insertText text, .paragraphStyle ("HEADING_" ++ toString depth) (c.rangeOf text)])
  | .paragraph _ (some (token :: tokens)) =>
    let styled := compose (token :: tokens)
    let text := styled.text ++ "\n"
    (c.advanceOver text,
      .insertText text :: styled.spans.map fun s => .textStyle s.style (s.range.offsetBy c.offset))
  | .paragraph text _ => (c.advanceOver (text ++ "\n"), [.insertText (text ++ "\n")])
  | .list items ordered => lowerItems (o.bulletPreset ordered) c items
  | .table header rows =>
    let body := Table.render header rows
    (c.advanceOver (body ++ "\n"),
      [.insertText (body ++ "\n"), .textStyle (.font o.monospaceFont) (c.rangeOf body)])
  | .blank => (c.advanceOver "\n", [.insertText "\n"])
  | .raw text => if text = "" then (c, []) else (c.advanceOver text, [.insertText text])

structure Draft where
  cursor : Cursor
  edits : List Edit
  blocks : List BlockRecord
  deriving DecidableEq, Repr, Inhabited

namespace Draft

/-- Nothing is drafted yet, and the cursor stands at `offset`. -/
def start (offset : Nat) : Draft := ⟨⟨offset⟩, [], []⟩

def advance (d : Draft) (n : Nat) : Draft := { d with cursor := d.cursor.advance n }

def advanceOver (d : Draft) (text : String) : Draft :=
  { d with cursor := d.cursor.advanceOver text }

/-- Adds an edit; the cursor stays. -/
def push (d : Draft) (e : Edit) : Draft := { d with edits := d.edits ++ [e] }

/-- Adds an insertion; the cursor stays. -/
def insert (d : Draft) (text : String) : Draft := d.push (.insertText text)

/-- Adds the edits of a block and moves the cursor behind it. -/
def lower (o : Options) (d : Draft) (token : BlockToken) : Draft :=
  let (cursor, edits) := token.lower o d.cursor
  { d with cursor, edits := d.edits ++ edits }

/-- Records a block that began with the edit at `first`. -/
def closeBlock (d : Draft) (first : Nat) (offsets : TextRange) : Draft :=
  { d with blocks := d.blocks ++ [⟨first, d.edits.length, offsets⟩] }

/-- Adds a block with its record. -/
def addBlock (o : Options) (d : Draft) (token : BlockToken) : Draft :=
  let next := d.lower o token
  next.closeBlock d.edits.length ⟨d.cursor.offset, next.cursor.offset⟩

/-- The compilation that a draft started at `initialOffset` has become. -/
def finish (d : Draft) (initialOffset : Nat) : Compilation :=
  ⟨d.edits, d.blocks, initialOffset, d.cursor.offset⟩

end Draft

end MarkdownEdits
