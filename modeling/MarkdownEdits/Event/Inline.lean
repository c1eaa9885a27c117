import MarkdownEdits.Event.Basic
import MarkdownEdits.Token

/-!
# Inline runs from events

The events inside a paragraph, heading, item or cell become a run of inline tokens. Strong,
emphasised and linked elements gather the text inside them; another element outside of those is
kept as its source, and what it holds adds nothing.
-/

namespace MarkdownEdits

inductive SpanKind
  | strong
  | emphasis
  | link (target : String)
  deriving DecidableEq, Repr, Inhabited

/-- The kind of span that an element opens. -/
def Tag.spanKind? : Tag → Option SpanKind
  | .plain .strong => some .strong
  | .plain .emphasis => some .emphasis
  | .link target => some (.link target)
  | _ => none

/-- A span whose end has not been seen: `depth` elements are open, itself included. -/
structure OpenSpan where
  kind : SpanKind
  text : String
  depth : Nat
  deriving DecidableEq, Repr, Inhabited

def OpenSpan.token (s : OpenSpan) : InlineToken :=
  match s.kind with
  | .strong => .strong s.text
  | .emphasis => .emphasis s.text
  | .link target => .link s.text target

/-- Adds text to a run: to its last token where that is text. -/
def InlineToken.appendText (text : String) : List InlineToken → List InlineToken
  | [] => [.text text]
  | [.text last] => [.text (last ++ text)]
  | token :: rest => token :: appendText text rest

/-- A run in the making. -/
structure InlineBuilder where
  tokens : List InlineToken := []
  span : Option OpenSpan := none
  /-- How many elements are open from the one that is kept as its source. -/
  sourceDepth : Nat := 0
  deriving DecidableEq, Repr, Inhabited

namespace InlineBuilder

def isEmpty (b : InlineBuilder) : Bool := b.tokens.isEmpty && b.span.isNone

/-- Whether an element that is kept as its source is open. -/
def inSource (b : InlineBuilder) : Bool := 0 < b.sourceDepth

def pushText (b : InlineBuilder) (text : String) : InlineBuilder :=
  match b.span with
  | some s => { b with span := some { s with text := s.text ++ text } }
  | none => { b with tokens := InlineToken.appendText text b.tokens }

/-- Adds `inner` to an open span, and else a token for `source`. -/
def pushSource (b : InlineBuilder) (inner source : String) : InlineBuilder :=
  match b.span with
  | some s => { b with span := some { s with text := s.text ++ inner } }
  | none => { b with tokens := b.tokens ++ [.other source] }

/-- A blank between what is there and what follows. -/
def pushSeparator (b : InlineBuilder) : InlineBuilder :=
  if b.inSource || b.isEmpty then b else b.pushText " "

/-- An element starts; `source` is its source text. -/
def start (b : InlineBuilder) (tag : Tag) (source : String) : InlineBuilder :=
  if b.inSource then { b with sourceDepth := b.sourceDepth + 1 }
  else match b.span with
    | some s => { b with span := some { s with depth := s.depth + 1 } }
    | none =>
      match tag.spanKind? with
      | some kind => { b with span := some ⟨kind, "", 1⟩ }
      | none => { b with tokens := b.tokens ++ [.other source], sourceDepth := 1 }

/-- The innermost open element ends; without one nothing happens. -/
def stop (b : InlineBuilder) : InlineBuilder :=
  if b.inSource then { b with sourceDepth := b.sourceDepth - 1 }
  else match b.span with
    | some s =>
      if s.depth - 1 = 0 then { b with tokens := b.tokens ++ [s.token], span := none }
      else { b with span := some { s with depth := s.depth - 1 } }
    | none => b

/-- An event without an inside; `source` is its source text. -/
def leaf (b : InlineBuilder) (l : Leaf) (source : String) : InlineBuilder :=
  if b.inSource then b
  else match l with
    | .text text => b.pushText text
    | .softBreak => b.pushText "\n"
    | .code text => b.pushSource text source
    | .hardBreak => b.pushSource "\n" source
    | .other => b.pushSource source source

/-- The text of all that has been read, an open span included. -/
def plainText (b : InlineBuilder) : String :=
  InlineToken.renderAll b.tokens ++ (b.span.map OpenSpan.text).getD ""

/-- The run; a span that is still open ends here. -/
def finish (b : InlineBuilder) : List InlineToken :=
  b.tokens ++ (b.span.map OpenSpan.token).toList

end InlineBuilder

end MarkdownEdits
