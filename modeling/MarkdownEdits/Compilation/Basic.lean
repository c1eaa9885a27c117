import MarkdownEdits.Edit

/-!
# Compilations

The outcome of turning blocks into edits: the edits in application order, one record per block,
and the offsets at which the insertion starts and ends.
-/

namespace MarkdownEdits

/-- What a compilation is asked for: where the text goes, and the names the service knows for the
monospaced font and for the two kinds of bullets. -/
structure Options where
  initialOffset : Nat := 1
  monospaceFont : String := "Consolas"
  orderedPreset : String := "NUMBERED_DECIMAL_ALPHA_ROMAN"
  unorderedPreset : String := "BULLET_DISC_CIRCLE_SQUARE"
  deriving DecidableEq, Repr, Inhabited

def Options.bulletPreset (o : Options) (ordered : Bool) : String :=
  if ordered then o.orderedPreset else o.unorderedPreset

/-- The edits from index `first` up to, and not including, `stop` belong to the block that
occupies `offsets`. -/
structure BlockRecord where
  first : Nat
  stop : Nat
  offsets : TextRange
  deriving DecidableEq, Repr, Inhabited

structure Compilation where
  edits : List Edit
  blocks : List BlockRecord
  initialOffset : Nat
  finalOffset : Nat
  deriving DecidableEq, Repr, Inhabited

/-- The number of units that a compilation adds to the document. -/
def Compilation.insertedLength (c : Compilation) : Nat := MarkdownEdits.insertedLength c.edits

end MarkdownEdits
