import MarkdownEdits.Compilation.Basic

/-!
# The check of a compilation

Every offset of a batch counts on the text that stands before it. A compilation is checked for
that before it leaves: the offsets cover exactly the inserted text, each range lies in text that
exists when the range is used, and each edit of a block stays in the block. The first fault in this
order is the one reported.
-/

namespace MarkdownEdits

inductive InvariantViolation
  /-- The final offset is not the initial one plus the inserted length. -/
  | offsetDrift (advanced inserted : Nat)
  | rangeOutsideBlock (index : Nat) (range block : TextRange)
  /-- A range ends after the text that exists when it is used. -/
  | rangeAheadOfInsertion (index : Nat) (range : TextRange) (insertedEnd : Nat)
  /-- A block claims an edit that does not exist. -/
  | missingOperation (index operations : Nat)
  | invertedRange (index : Nat) (range : TextRange)
  deriving DecidableEq, Repr, Inhabited

def InvariantViolation.message : InvariantViolation → String
  | .offsetDrift advanced inserted =>
    s!"cursor advanced by {advanced} but {inserted} units were inserted"
  | .rangeOutsideBlock index range block =>
    s!"operation {index} styles {range.describe} outside its block {block.describe}"
  | .rangeAheadOfInsertion index range insertedEnd =>
    s!"operation {index} styles {range.describe} before text up to {insertedEnd} exists"
  | .missingOperation index operations =>
    s!"block refers to operation {index} but only {operations} exist"
  | .invertedRange index range => s!"operation {index} has inverted range {range.describe}"

/-- The fault of the edit at `index`, used when the document's text ends at `insertedEnd`. -/
def Edit.orderFault? (e : Edit) (index insertedEnd : Nat) : Option InvariantViolation :=
  e.range?.bind fun range =>
    if range.stop < range.start then some (.invertedRange index range)
    else if insertedEnd < range.stop then some (.rangeAheadOfInsertion index range insertedEnd)
    else none

/-- The first fault of edits that start at `index` in a document whose text ends at
`insertedEnd`. -/
def orderFault? (index insertedEnd : Nat) : List Edit → Option InvariantViolation
  | [] => none
  | e :: es =>
    (e.orderFault? index insertedEnd).or (orderFault? (index + 1) (insertedEnd + e.insertedLength) es)

/-- The fault of the edit at `index` in a block that occupies `block`. -/
def Edit.blockFault? (e : Edit) (index : Nat) (block : TextRange) : Option InvariantViolation :=
  e.range?.bind fun range =>
    if range.start < block.start ∨ block.stop < range.stop then
      some (.rangeOutsideBlock index range block)
    else none

namespace BlockRecord

/-- The first fault of `count` edits from `index` on, `edits` being all that exist from there. -/
def faultFrom? (b : BlockRecord) (operations : Nat) : Nat → Nat → List Edit → Option InvariantViolation
  | _, 0, _ => none
  | index, _ + 1, [] => some (.missingOperation index operations)
  | index, count + 1, e :: es =>
    (e.blockFault? index b.offsets).or (b.faultFrom? operations (index + 1) count es)

/-- The first fault of a block. -/
def fault? (b : BlockRecord) (edits : List Edit) : Option InvariantViolation :=
  b.faultFrom? edits.length b.first (b.stop - b.first) (edits.drop b.first)

end BlockRecord

namespace Compilation

def drift? (c : Compilation) : Option InvariantViolation :=
  if c.finalOffset - c.initialOffset = c.insertedLength then none
  else some (.offsetDrift (c.finalOffset - c.initialOffset) c.insertedLength)

/-- The first fault of a compilation. -/
def violation? (c : Compilation) : Option InvariantViolation :=
  c.drift?.or ((orderFault? 0 c.initialOffset c.edits).or
    (c.blocks.findSome? fun b => b.fault? c.edits))

/-- Passes exactly the compilations without a fault. -/
def check (c : Compilation) : Except InvariantViolation Unit :=
  match c.violation? with
  | none => .ok ()
  | some v => .error v

end Compilation

end MarkdownEdits
