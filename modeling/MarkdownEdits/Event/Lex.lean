import MarkdownEdits.Event.Block

/-!
# Block tokens from events

The event stream of a text is folded into its block tokens. Each element or stand-alone event at the
outermost level becomes one token, and a blank token goes between two of them that an empty line
separates.
-/

namespace MarkdownEdits

/-- How far the fold has come. -/
structure Lexer where
  tokens : List BlockToken := []
  block : Option OpenBlock := none
  /-- How many elements are open. -/
  depth : Nat := 0
  /-- Where the last element at the outermost level ends. -/
  lastEnd : Option Nat := none
  deriving DecidableEq, Repr, Inhabited

/-- Whether an empty line stands between an element that ends at `lastEnd` and one that starts at
`start`: with the line breaks that the first one ends in, the gap has two line feeds. -/
def hasEmptyLine (source : String) (lastEnd start : Nat) : Except BadSlice Bool := do
  let before ← Text.slice source ⟨0, lastEnd⟩
  let contentEnd := Text.byteLength (Text.trimLineBreaks before).toList
  let gap ← Text.slice source ⟨contentEnd, start⟩
  return 2 ≤ gap.toList.count '\n'

namespace Lexer

def push (l : Lexer) (token : BlockToken) : Lexer := { l with tokens := l.tokens ++ [token] }

/-- Adds a blank token if an empty line stands before `start`. -/
def pushGap (source : String) (l : Lexer) (start : Nat) : Except BadSlice Lexer :=
  match l.lastEnd with
  | none => .ok l
  | some lastEnd => do
    let empty ← hasEmptyLine source lastEnd start
    return if empty then l.push .blank else l

/-- An element at the outermost level starts. -/
def openBlock (source : String) (l : Lexer) (tag : Tag) (range : ByteRange) :
    Except BadSlice Lexer := do
  let l ← l.pushGap source range.start
  let block ← OpenBlock.ofTag source tag range
  return { l with block := some block, lastEnd := some range.stop }

/-- The open block, if there is one, becomes a token. -/
def closeBlock (source : String) (l : Lexer) : Except BadSlice Lexer :=
  match l.block with
  | none => .ok l
  | some block => do
    let token ← block.token source
    return { l.push token with block := none }

/-- An event without an inside at the outermost level. -/
def standAlone (source : String) (l : Lexer) (range : ByteRange) : Except BadSlice Lexer := do
  let l ← l.pushGap source range.start
  let range ← Text.withIndent source range
  let text ← Text.slice source range
  return { l.push (.raw (Text.withLineEnd text)) with lastEnd := some range.stop }

def mapBlock (l : Lexer) (f : OpenBlock → OpenBlock) : Lexer := { l with block := l.block.map f }

/-- An element starts, at the outermost level or within the open block. -/
def startElement (source : String) (l : Lexer) (tag : Tag) (range : ByteRange) :
    Except BadSlice Lexer :=
  if l.depth = 0 then l.openBlock source tag range
  else do
    let text ← Text.slice source range
    return l.mapBlock (OpenBlock.start tag text)

/-- One event. -/
def step (source : String) (l : Lexer) (e : SourceEvent) : Except BadSlice Lexer :=
  match e.event with
  | .start tag => do
    let l ← l.startElement source tag e.range
    return { l with depth := l.depth + 1 }
  | .stop kind =>
    let l := { l with depth := l.depth - 1 }
    if l.depth = 0 then l.closeBlock source else .ok (l.mapBlock (OpenBlock.stop kind))
  | .leaf leaf =>
    if l.depth = 0 then l.standAlone source e.range
    else do
      let text ← Text.slice source e.range
      return l.mapBlock (OpenBlock.leaf leaf text)

end Lexer

/-- The block tokens of a text. A block whose end is missing ends with the stream. -/
def lex (m : Markdown) : Except BadSlice (List BlockToken) := do
  let l ← m.events.foldlM (Lexer.step m.text) {}
  let l ← l.closeBlock m.text
  return l.tokens

end MarkdownEdits
