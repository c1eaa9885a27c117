import MarkdownEdits.Paragraph
import MarkdownEdits.Proofs.InlineForest
import MarkdownEdits.Proofs.Layout

/-!
# Runs as a recursion over the forest

The run of an inline forest is read off its nodes one by one: every node is one token, and texts
that stand side by side are one text. The builder, which sees the events alone, comes to the same
run, for a paragraph as it is and for a heading as its text.
-/

namespace MarkdownEdits

/-! ### The run of a forest -/

/-- The token of a node at the outer level of a run. -/
def Node.inlineToken (source : String) : Node → InlineToken
  | .leaf (.text t) _ => .text t
  | .leaf .softBreak _ => .text "\n"
  | .leaf _ r => .other (Text.textOf source r)
  | .element (.plain .strong) _ children => .strong (Node.flatAll source children)
  | .element (.plain .emphasis) _ children => .emphasis (Node.flatAll source children)
  | .element (.link target) _ children => .link (Node.flatAll source children) target
  | .element _ r _ => .other (Text.textOf source r)

/-- A token ahead of a run. A text and the text behind it are one. -/
def InlineToken.prepend : InlineToken → List InlineToken → List InlineToken
  | .text a, .text b :: rest => .text (a ++ b) :: rest
  | token, tokens => token :: tokens

/-- The run of inline nodes. -/
def Node.run (source : String) : List Node → List InlineToken
  | [] => []
  | n :: ns => (n.inlineToken source).prepend (Node.run source ns)

/-! ### Adding at the end -/

namespace InlineToken

def isText : InlineToken → Bool
  | .text _ => true
  | _ => false

theorem prepend_of_not_isText {token : InlineToken} (h : token.isText = false)
    (tokens : List InlineToken) : token.prepend tokens = token :: tokens := by
  cases token with
  | text t => cases h
  | _ => rfl

/-- The last token of a run takes up a text, whatever stands ahead of the run. -/
theorem appendText_prepend (text : String) (token : InlineToken) (tokens : List InlineToken) :
    appendText text (token.prepend tokens) = token.prepend (appendText text tokens) := by
  cases htoken : token.isText with
  | false =>
    rw [prepend_of_not_isText htoken, prepend_of_not_isText htoken]
    cases token with
    | text a => cases htoken
    | _ => rfl
  | true =>
    obtain ⟨a, rfl⟩ : ∃ a, token = .text a := by
      cases token with
      | text a => exact ⟨a, rfl⟩
      | _ => cases htoken
    match tokens with
    | [] => rfl
    | [.text b] =>
      show [InlineToken.text (a ++ b ++ text)] = [.text (a ++ (b ++ text))]
      rw [String.append_assoc]
    | .text b :: next :: rest => rfl
    | .strong t :: rest => rfl
    | .emphasis t :: rest => rfl
    | .link t target :: rest => rfl
    | .other t :: rest => rfl

theorem prepend_append {last : InlineToken} (h : last.isText = false) (token : InlineToken)
    (tokens : List InlineToken) :
    token.prepend tokens ++ [last] = token.prepend (tokens ++ [last]) := by
  cases tokens with
  | nil =>
    cases token with
    | text a =>
      cases last with
      | text b => cases h
      | _ => rfl
    | _ => rfl
  | cons next rest =>
    cases token with
    | text a => cases next <;> rfl
    | _ => rfl

end InlineToken

section Run

variable {source : String}

/-- A node goes to the end of a run as its token does. -/
theorem Node.appendTo_eq (tokens : List InlineToken) (n : Node) :
    n.appendTo source tokens =
      match n.inlineToken source with
      | .text t => InlineToken.appendText t tokens
      | token => tokens ++ [token] := by
  cases n with
  | leaf l r => cases l <;> rfl
  | element tag r children =>
    cases tag with
    | heading level => rfl
    | list first => rfl
    | link target => rfl
    | plain kind => cases kind <;> rfl

theorem Node.appendTo_prepend (token : InlineToken) (tokens : List InlineToken) (n : Node) :
    n.appendTo source (token.prepend tokens) = token.prepend (n.appendTo source tokens) := by
  rw [appendTo_eq, appendTo_eq]
  cases n.inlineToken source with
  | text t => exact InlineToken.appendText_prepend t token tokens
  | strong t => exact InlineToken.prepend_append rfl token tokens
  | emphasis t => exact InlineToken.prepend_append rfl token tokens
  | link t target => exact InlineToken.prepend_append rfl token tokens
  | other t => exact InlineToken.prepend_append rfl token tokens

/-- What stands at the front of a run stays there while nodes are added. -/
theorem Node.foldl_appendTo_prepend (token : InlineToken) (tokens : List InlineToken)
    (nodes : List Node) :
    nodes.foldl (Node.appendTo source) (token.prepend tokens) =
      token.prepend (nodes.foldl (Node.appendTo source) tokens) := by
  induction nodes generalizing tokens with
  | nil => rfl
  | cons n nodes ih => rw [List.foldl_cons, List.foldl_cons, appendTo_prepend, ih]

/-- The run that is built node by node at its end is that of the recursion. -/
theorem Node.foldl_appendTo_nil (nodes : List Node) :
    nodes.foldl (Node.appendTo source) [] = Node.run source nodes := by
  induction nodes with
  | nil => rfl
  | cons n nodes ih =>
    have hfirst : n.appendTo source [] = (n.inlineToken source).prepend [] := by
      rw [appendTo_eq]
      cases n.inlineToken source <;> rfl
    rw [List.foldl_cons, hfirst, foldl_appendTo_prepend, ih, Node.run]

variable (source) in
/-- The builder over the events of a forest, as it ends. -/
theorem Node.feedAll_fresh (nodes : List Node) :
    (Node.eventsAll nodes).foldl (InlineBuilder.feed source) {} =
      ⟨Node.run source nodes, none, 0⟩ := by
  rw [← Node.foldl_appendTo_nil]
  exact Node.feedAll_outer nodes []

end Run

/-! ### Paragraphs and headings -/

/-- What has been read is the text of the run, though a span may still be open. -/
theorem InlineBuilder.text_compose_finish (b : InlineBuilder) :
    (compose b.finish).text = b.plainText := by
  show InlineToken.renderAll b.finish = b.plainText
  obtain ⟨tokens, span, depth⟩ := b
  rw [finish, plainText, InlineToken.renderAll_append]
  cases span with
  | none => rfl
  | some s =>
    simp only [Option.map_some, Option.toList_some, Option.getD_some, InlineToken.renderAll_cons,
      InlineToken.renderAll_nil, OpenSpan.rendered_token, String.append_empty]

section Blocks

variable {source : String}

theorem OpenBlock.foldl_feed_heading (depth : Nat) (inline : InlineBuilder)
    (events : List SourceEvent) :
    events.foldl (OpenBlock.feed source) (.heading depth inline) =
      .heading depth (events.foldl (InlineBuilder.feed source) inline) := by
  refine List.foldl_hom (OpenBlock.heading depth) ?_
  rintro inline ⟨event, r⟩
  cases event <;> rfl

theorem OpenBlock.foldl_feed_paragraph (range : ByteRange) (inline : InlineBuilder)
    (events : List SourceEvent) :
    events.foldl (OpenBlock.feed source) (.paragraph range inline) =
      .paragraph range (events.foldl (InlineBuilder.feed source) inline) := by
  refine List.foldl_hom (OpenBlock.paragraph range) ?_
  rintro inline ⟨event, r⟩
  cases event <;> rfl

theorem Readable.element {tag : Tag} {r : ByteRange} {children : List Node} (hr : r.Within source)
    (h : Readable source (Node.eventsAll children)) :
    Readable source (Node.element tag r children).events := by
  rw [Node.events, readable_cons, readable_append]
  refine ⟨hr, h, ?_⟩
  intro e he
  rw [List.mem_singleton.1 he]
  exact hr

/-- A paragraph holds its source and the run of its inside. -/
theorem lex_paragraph {r : ByteRange} {nodes : List Node} (hr : r.Within source)
    (h : Readable source (Node.eventsAll nodes)) :
    lex ⟨source, (Node.element (.plain .paragraph) r nodes).events⟩ =
      .ok [.paragraph (Text.trimLineBreaks (Text.textOf source r))
        (some (Node.run source nodes))] := by
  apply lex_node (Readable.element hr h)
  have hslice := Text.slice_eq_textOf hr
  have hrun := Node.feedAll_fresh source nodes
  simp only [Node.token, Node.block, OpenBlock.ofTag, Except.map, bind, Except.bind,
    OpenBlock.foldl_feed_paragraph, hrun, OpenBlock.token, hslice, pure, Except.pure,
    InlineBuilder.finish, Option.map_none, Option.toList_none, List.append_nil]

/-- A heading holds the text of the run of its inside. -/
theorem lex_heading {r : ByteRange} {nodes : List Node} (hr : r.Within source)
    (h : Readable source (Node.eventsAll nodes)) (level : Nat) :
    lex ⟨source, (Node.element (.heading level) r nodes).events⟩ =
      .ok [.heading (Text.trim (compose (Node.run source nodes)).text) level] := by
  apply lex_node (Readable.element hr h)
  have hrun := Node.feedAll_fresh source nodes
  have htext : InlineBuilder.plainText ⟨Node.run source nodes, none, 0⟩ =
      (compose (Node.run source nodes)).text := by
    rw [← InlineBuilder.text_compose_finish, InlineBuilder.finish, Option.map_none,
      Option.toList_none, List.append_nil]
  simp only [Node.token, Node.block, OpenBlock.ofTag, Except.map, bind, Except.bind,
    OpenBlock.foldl_feed_heading, hrun, OpenBlock.token, htext]

end Blocks

/-- **The builder computes the run of the forest.** Fed with the events of any inline forest, a
fresh builder ends with the run that the recursion over the forest gives. A paragraph holds this
run, and a heading of the same inside holds its text without the blanks at both ends. -/
theorem inline_run_of_forest (source : String) (nodes : List Node) :
    ((Node.eventsAll nodes).foldl (InlineBuilder.feed source) {}).finish =
        Node.run source nodes ∧
      ∀ r : ByteRange, r.Within source → Readable source (Node.eventsAll nodes) →
        lex ⟨source, (Node.element (.plain .paragraph) r nodes).events⟩ =
            .ok [.paragraph (Text.trimLineBreaks (Text.textOf source r))
              (some (Node.run source nodes))] ∧
          ∀ level : Nat, lex ⟨source, (Node.element (.heading level) r nodes).events⟩ =
            .ok [.heading (Text.trim (compose (Node.run source nodes)).text) level] := by
  refine ⟨?_, fun r hr h => ⟨lex_paragraph hr h, fun level => lex_heading hr h level⟩⟩
  rw [Node.feedAll_fresh, InlineBuilder.finish, Option.map_none, Option.toList_none,
    List.append_nil]

/-- The inside of the paragraph ``"x\n*b `c`* `d` [**e**](u)![*i*](v)\n"``. -/
def mixedInline : List Node := [
  .leaf (.text "x") ⟨0, 1⟩, .leaf .softBreak ⟨1, 2⟩,
  .element (.plain .emphasis) ⟨2, 9⟩ [.leaf (.text "b ") ⟨3, 5⟩, .leaf (.code "c") ⟨5, 8⟩],
  .leaf (.text " ") ⟨9, 10⟩, .leaf (.code "d") ⟨10, 13⟩, .leaf (.text " ") ⟨13, 14⟩,
  .element (.link "u") ⟨14, 24⟩
    [.element (.plain .strong) ⟨15, 20⟩ [.leaf (.text "e") ⟨17, 18⟩]],
  .element (.plain .image) ⟨24, 33⟩
    [.element (.plain .emphasis) ⟨26, 29⟩ [.leaf (.text "i") ⟨27, 28⟩]]]

theorem inline_run_of_mixed :
    ByteRange.Within "x\n*b `c`* `d` [**e**](u)![*i*](v)\n" ⟨0, 34⟩ ∧
    Readable "x\n*b `c`* `d` [**e**](u)![*i*](v)\n" (Node.eventsAll mixedInline) ∧
    Node.run "x\n*b `c`* `d` [**e**](u)![*i*](v)\n" mixedInline =
      [.text "x\n", .emphasis "b c", .text " ", .other "`d`", .text " ", .link "e" "u",
        .other "![*i*](v)"] ∧
    lex ⟨"x\n*b `c`* `d` [**e**](u)![*i*](v)\n",
        (Node.element (.heading 2) ⟨0, 34⟩ mixedInline).events⟩ =
      .ok [.heading "x\nb c `d` e![*i*](v)" 2] := by
  have hr : ByteRange.Within "x\n*b `c`* `d` [**e**](u)![*i*](v)\n" ⟨0, 34⟩ := by decide
  have hread : Readable "x\n*b `c`* `d` [**e**](u)![*i*](v)\n" (Node.eventsAll mixedInline) := by
    decide
  obtain ⟨-, hblocks⟩ := inline_run_of_forest "x\n*b `c`* `d` [**e**](u)![*i*](v)\n" mixedInline
  obtain ⟨-, hheading⟩ := hblocks ⟨0, 34⟩ hr hread
  exact ⟨hr, hread, rfl, hheading 2⟩

end MarkdownEdits
