import MarkdownEdits.Compilation.Check
import MarkdownEdits.Compilation.Draft
import MarkdownEdits.Event.Lex
import MarkdownEdits.Log

/-!
# Compiling

Block tokens are lowered one after the other with a single cursor, and the outcome is checked before
it is handed out.
-/

namespace MarkdownEdits

/-- The edits and records of block tokens, not checked. -/
def assemble (o : Options) (tokens : List BlockToken) : Compilation :=
  (tokens.foldl (Draft.addBlock o) (.start o.initialOffset)).finish o.initialOffset

/-- The checked compilation of block tokens. -/
def compile (o : Options) (tokens : List BlockToken) : Except InvariantViolation Compilation :=
  let c := assemble o tokens
  c.check.map fun _ => c

inductive CompileError
  | invariant (violation : InvariantViolation)
  /-- An event names source text that does not exist. -/
  | source (slice : BadSlice)
  deriving DecidableEq, Repr, Inhabited

def CompileError.message : CompileError → String
  | .invariant violation => "compiler invariant violated: " ++ violation.message
  | .source slice => s!"no source text at {slice.range.start}..{slice.range.stop}"

def compileMarkdown (o : Options) (m : Markdown) : Except CompileError Compilation := do
  let tokens ← (lex m).mapError .source
  (compile o tokens).mapError .invariant

/-! ### Log -/

def blockLogLine (token : BlockToken) (b : BlockRecord) : LogLine :=
  ⟨.debug, s!"{token.kindName} block: offsets {b.offsets.start}..{b.offsets.stop}, {b.stop - b.first} operation(s)"⟩

/-- What is logged while tokens are compiled: each block, and the whole where it passes the
check. -/
def compileLog (o : Options) (tokens : List BlockToken) : List LogLine :=
  let c := assemble o tokens
  let whole : LogLine :=
    ⟨.info, s!"compiled {tokens.length} block(s) into {c.edits.length} request(s), offsets {c.initialOffset}..{c.finalOffset}"⟩
  tokens.zipWith blockLogLine c.blocks ++ (if c.violation?.isNone then [whole] else [])

/-- What is logged while a text is compiled. -/
def markdownLog (o : Options) (m : Markdown) : List LogLine :=
  match lex m with
  | .ok tokens => compileLog o tokens
  | .error _ => []

end MarkdownEdits
