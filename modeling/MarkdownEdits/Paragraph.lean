import MarkdownEdits.Edit
import MarkdownEdits.Token

/-!
# Paragraph text

An inline run becomes one plain text and a list of style spans over it. Spans count UTF-16 units
from the start of the text; a styled token without text leaves no span.
-/

namespace MarkdownEdits

structure StyleSpan where
  style : TextStyle
  range : TextRange
  deriving DecidableEq, Repr, Inhabited

structure StyledText where
  text : String
  spans : List StyleSpan
  deriving DecidableEq, Repr, Inhabited

/-- The style that the token's text is given. -/
def InlineToken.style? : InlineToken → Option TextStyle
  | .strong _ => some .bold
  | .emphasis _ => some .italic
  | .link _ target => some (.link target)
  | .text _ | .other _ => none

/-- The span of a token whose text starts at `offset`. -/
def InlineToken.span? (token : InlineToken) (offset : Nat) : Option StyleSpan :=
  let length := Text.utf16Length token.rendered
  if length = 0 then none
  else token.style?.map fun style => ⟨style, .ofLength offset length⟩

/-- The spans of a run whose text starts at `offset`. -/
def spansFrom (offset : Nat) : List InlineToken → List StyleSpan
  | [] => []
  | t :: ts => (t.span? offset).toList ++ spansFrom (offset + Text.utf16Length t.rendered) ts

/-- The text of an inline run with its style spans. -/
def compose (tokens : List InlineToken) : StyledText :=
  ⟨InlineToken.renderAll tokens, spansFrom 0 tokens⟩

end MarkdownEdits
