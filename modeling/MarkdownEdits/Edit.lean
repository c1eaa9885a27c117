import MarkdownEdits.Range
import MarkdownEdits.Text.Utf16

/-!
# Edits

The operations that change an offset-addressed document, in the order in which they are applied.
An insertion always goes to the end of the document; every other edit names a range.
-/

namespace MarkdownEdits

inductive TextStyle
  | bold
  | italic
  | link (url : String)
  | font (family : String)
  deriving DecidableEq, Repr, Inhabited

/-- The name of the one attribute that the style sets. -/
def TextStyle.fieldMask : TextStyle → String
  | .bold => "bold"
  | .italic => "italic"
  | .link _ => "link"
  | .font _ => "weightedFontFamily"

inductive Edit
  | insertText (text : String)
  | paragraphStyle (name : String) (range : TextRange)
  | textStyle (style : TextStyle) (range : TextRange)
  | listBullet (preset : String) (range : TextRange)
  | delete (range : TextRange)
  deriving DecidableEq, Repr, Inhabited

namespace Edit

def insertedText? : Edit → Option String
  | .insertText text => some text
  | _ => none

def range? : Edit → Option TextRange
  | .insertText _ => none
  | .paragraphStyle _ r | .textStyle _ r | .listBullet _ r | .delete r => some r

/-- The number of units that the edit adds to the document. -/
def insertedLength : Edit → Nat
  | .insertText text => Text.utf16Length text
  | _ => 0

end Edit

/-- The number of units that a list of edits adds to the document. -/
def insertedLength : List Edit → Nat
  | [] => 0
  | e :: edits => e.insertedLength + insertedLength edits

@[simp] theorem insertedLength_nil : insertedLength [] = 0 := rfl

@[simp] theorem insertedLength_cons (e : Edit) (es : List Edit) :
    insertedLength (e :: es) = e.insertedLength + insertedLength es := rfl

@[simp] theorem insertedLength_append (es fs : List Edit) :
    insertedLength (es ++ fs) = insertedLength es + insertedLength fs := by
  induction es with
  | nil => exact (Nat.zero_add _).symm
  | cons e es ih => rw [List.cons_append, insertedLength_cons, ih, insertedLength_cons, Nat.add_assoc]

end MarkdownEdits
