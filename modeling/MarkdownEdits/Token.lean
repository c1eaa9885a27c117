/-!
# Tokens

What a Markdown text is cut into: block tokens, and inside a paragraph a run of inline tokens.
Inline markup has one level: a strong, emphasised or linked run holds plain text.
-/

namespace MarkdownEdits

inductive InlineToken
  | text (text : String)
  | strong (text : String)
  | emphasis (text : String)
  | link (text target : String)
  /-- A construct with no rendering of its own, kept as its source. -/
  | other (source : String)
  deriving DecidableEq, Repr, Inhabited

/-- The text that the token puts into the document. -/
def InlineToken.rendered : InlineToken → String
  | .text t | .strong t | .emphasis t | .link t _ => t
  | .other source => source

/-- The text of a run of tokens. -/
def InlineToken.renderAll (tokens : List InlineToken) : String :=
  tokens.foldr (fun t rest => t.rendered ++ rest) ""

@[simp] theorem InlineToken.renderAll_nil : renderAll [] = "" := rfl

@[simp] theorem InlineToken.renderAll_cons (t : InlineToken) (ts : List InlineToken) :
    renderAll (t :: ts) = t.rendered ++ renderAll ts := rfl

inductive BlockToken
  | heading (text : String) (depth : Nat)
  /-- `text` is the paragraph's source; `inline` is its inline run where it has been lexed. -/
  | paragraph (text : String) (inline : Option (List InlineToken))
  /-- A list of any nesting, flattened to the texts of its items. -/
  | list (items : List String) (ordered : Bool)
  | table (header : List String) (rows : List (List String))
  /-- An empty line between two blocks. -/
  | blank
  /-- A block that is passed through as its source. -/
  | raw (text : String)
  deriving DecidableEq, Repr, Inhabited

/-- The word for the kind of block in log lines. -/
def BlockToken.kindName : BlockToken → String
  | .heading .. => "heading"
  | .paragraph .. => "paragraph"
  | .list .. => "list"
  | .table .. => "table"
  | .blank => "blank"
  | .raw _ => "raw"

end MarkdownEdits
