import MarkdownEdits.Proofs.Forest

/-!
# The run of an inline forest

What a forest of inline nodes adds to a run: a strong, emphasised or linked node becomes one token
with the text of all that is inside it, text is text, and each other node is kept as its source.
-/

namespace MarkdownEdits

/-- An event inside a run, with the source text of its range. -/
def InlineBuilder.feed (source : String) (b : InlineBuilder) (e : SourceEvent) : InlineBuilder :=
  match e.event with
  | .start tag => b.start tag (Text.textOf source e.range)
  | .stop _ => b.stop
  | .leaf l => b.leaf l (Text.textOf source e.range)

/-! ### The text of a node -/

/-- The text of a leaf inside a strong, emphasised or linked node. -/
def Leaf.flat (source : String) : Leaf → String
  | .text t => t
  | .code t => t
  | .softBreak => "\n"
  | .hardBreak => "\n"
  | .other => source

mutual
/-- The text of a node inside a strong, emphasised or linked node. -/
def Node.flat (source : String) : Node → String
  | .leaf l r => l.flat (Text.textOf source r)
  | .element _ _ children => Node.flatAll source children
def Node.flatAll (source : String) : List Node → String
  | [] => ""
  | n :: ns => n.flat source ++ Node.flatAll source ns
end

/-- The tokens of a run with a node behind them. -/
def Node.appendTo (source : String) (tokens : List InlineToken) : Node → List InlineToken
  | .leaf (.text t) _ => InlineToken.appendText t tokens
  | .leaf .softBreak _ => InlineToken.appendText "\n" tokens
  | .leaf _ r => tokens ++ [.other (Text.textOf source r)]
  | .element tag r children =>
    match tag.spanKind? with
    | some kind => tokens ++ [OpenSpan.token ⟨kind, Node.flatAll source children, 0⟩]
    | none => tokens ++ [.other (Text.textOf source r)]

/-- The text of a node at the outer level of a run. -/
def Node.text (source : String) : Node → String
  | .leaf (.text t) _ => t
  | .leaf .softBreak _ => "\n"
  | .leaf _ r => Text.textOf source r
  | .element tag r children =>
    if tag.spanKind?.isSome then Node.flatAll source children else Text.textOf source r

/-- The text of inline nodes. -/
def Node.textAll (source : String) (nodes : List Node) : String :=
  nodes.foldr (fun n rest => n.text source ++ rest) ""

/-! ### The text of a run -/

theorem InlineToken.renderAll_append (tokens more : List InlineToken) :
    renderAll (tokens ++ more) = renderAll tokens ++ renderAll more := by
  induction tokens with
  | nil => simp
  | cons token tokens ih =>
    rw [List.cons_append, renderAll_cons, renderAll_cons, ih, String.append_assoc]

theorem InlineToken.renderAll_appendText (text : String) (tokens : List InlineToken) :
    renderAll (appendText text tokens) = renderAll tokens ++ text := by
  fun_induction appendText text tokens with
  | case1 => simp [rendered]
  | case2 last => simp [rendered]
  | case3 token rest hlast ih => rw [renderAll_cons, renderAll_cons, ih, String.append_assoc]

theorem OpenSpan.rendered_token (s : OpenSpan) : s.token.rendered = s.text := by
  obtain ⟨kind, text, depth⟩ := s
  cases kind <;> rfl

/-- A node adds its text to that of the run. -/
theorem Node.renderAll_appendTo (source : String) (tokens : List InlineToken) (n : Node) :
    InlineToken.renderAll (n.appendTo source tokens) =
      InlineToken.renderAll tokens ++ n.text source := by
  cases n with
  | leaf l r =>
    cases l <;> simp [appendTo, text, InlineToken.renderAll_appendText,
      InlineToken.renderAll_append, InlineToken.rendered]
  | element tag r children =>
    cases hkind : tag.spanKind? with
    | none => simp [appendTo, text, hkind, InlineToken.renderAll_append, InlineToken.rendered]
    | some kind => simp [appendTo, text, hkind, InlineToken.renderAll_append, OpenSpan.rendered_token]

theorem Node.renderAll_foldl_appendTo (source : String) (tokens : List InlineToken)
    (nodes : List Node) :
    InlineToken.renderAll (nodes.foldl (Node.appendTo source) tokens) =
      InlineToken.renderAll tokens ++ Node.textAll source nodes := by
  induction nodes generalizing tokens with
  | nil => simp [textAll]
  | cons n nodes ih =>
    rw [List.foldl_cons, ih, renderAll_appendTo, String.append_assoc]
    rfl

/-! ### Feeding a run -/

section Feed

variable {source : String}

mutual
/-- **Inside an element that is kept as its source nothing is added.** -/
theorem Node.feed_inSource (n : Node) (b : InlineBuilder) (h : b.inSource = true) :
    n.events.foldl (InlineBuilder.feed source) b = b := by
  cases n with
  | leaf l r => simp only [Node.foldl_leaf, InlineBuilder.feed, InlineBuilder.leaf, h, if_true]
  | element tag r children =>
    have hopen : InlineBuilder.inSource { b with sourceDepth := b.sourceDepth + 1 } = true := by
      simp [InlineBuilder.inSource]
    rw [Node.foldl_element]
    simp only [InlineBuilder.feed, InlineBuilder.start, h, if_true]
    rw [Node.feedAll_inSource children _ hopen]
    simp only [InlineBuilder.stop, hopen, if_true, Nat.add_sub_cancel]
theorem Node.feedAll_inSource (nodes : List Node) (b : InlineBuilder) (h : b.inSource = true) :
    (Node.eventsAll nodes).foldl (InlineBuilder.feed source) b = b := by
  cases nodes with
  | nil => rfl
  | cons n nodes =>
    rw [Node.foldl_eventsAll_cons, Node.feed_inSource n b h, Node.feedAll_inSource nodes b h]
end

mutual
/-- **Inside a span each node adds its text to the span.** -/
theorem Node.feed_inSpan (n : Node) (tokens : List InlineToken) (s : OpenSpan) (h : 0 < s.depth) :
    n.events.foldl (InlineBuilder.feed source) ⟨tokens, some s, 0⟩ =
      ⟨tokens, some { s with text := s.text ++ n.flat source }, 0⟩ := by
  cases n with
  | leaf l r => cases l <;> rfl
  | element tag r children =>
    have hstart : InlineBuilder.feed source ⟨tokens, some s, 0⟩ ⟨.start tag, r⟩ =
        ⟨tokens, some { s with depth := s.depth + 1 }, 0⟩ := rfl
    have hdepth : s.depth ≠ 0 := by omega
    rw [Node.foldl_element, hstart, Node.feedAll_inSpan children tokens _ (Nat.succ_pos _)]
    simp only [InlineBuilder.feed, InlineBuilder.stop, InlineBuilder.inSource, Nat.lt_irrefl,
      decide_false, Bool.false_eq_true, if_false, Nat.add_sub_cancel, if_neg hdepth, Node.flat]
theorem Node.feedAll_inSpan (nodes : List Node) (tokens : List InlineToken) (s : OpenSpan)
    (h : 0 < s.depth) :
    (Node.eventsAll nodes).foldl (InlineBuilder.feed source) ⟨tokens, some s, 0⟩ =
      ⟨tokens, some { s with text := s.text ++ Node.flatAll source nodes }, 0⟩ := by
  cases nodes with
  | nil => simp [Node.eventsAll, Node.flatAll]
  | cons n nodes =>
    rw [Node.foldl_eventsAll_cons, Node.feed_inSpan n tokens s h,
      Node.feedAll_inSpan nodes tokens _ (by exact h), Node.flatAll, String.append_assoc]
end

/-- **At the outer level each node adds its token.** -/
theorem Node.feed_outer (n : Node) (tokens : List InlineToken) :
    n.events.foldl (InlineBuilder.feed source) ⟨tokens, none, 0⟩ =
      ⟨n.appendTo source tokens, none, 0⟩ := by
  cases n with
  | leaf l r => cases l <;> rfl
  | element tag r children =>
    rw [Node.foldl_element]
    cases hkind : tag.spanKind? with
    | none =>
      have hstart : InlineBuilder.feed source ⟨tokens, none, 0⟩ ⟨.start tag, r⟩ =
          ⟨tokens ++ [.other (Text.textOf source r)], none, 1⟩ := by
        simp [InlineBuilder.feed, InlineBuilder.start, InlineBuilder.inSource, hkind]
      rw [hstart, Node.feedAll_inSource children _ rfl]
      simp [InlineBuilder.feed, InlineBuilder.stop, InlineBuilder.inSource, Node.appendTo, hkind]
    | some kind =>
      have hstart : InlineBuilder.feed source ⟨tokens, none, 0⟩ ⟨.start tag, r⟩ =
          ⟨tokens, some ⟨kind, "", 1⟩, 0⟩ := by
        simp [InlineBuilder.feed, InlineBuilder.start, InlineBuilder.inSource, hkind]
      rw [hstart, Node.feedAll_inSpan children tokens _ Nat.one_pos]
      simp [InlineBuilder.feed, InlineBuilder.stop, InlineBuilder.inSource, Node.appendTo, hkind,
        OpenSpan.token]

theorem Node.feedAll_outer (nodes : List Node) (tokens : List InlineToken) :
    (Node.eventsAll nodes).foldl (InlineBuilder.feed source) ⟨tokens, none, 0⟩ =
      ⟨nodes.foldl (Node.appendTo source) tokens, none, 0⟩ := by
  induction nodes generalizing tokens with
  | nil => rfl
  | cons n nodes ih => rw [Node.foldl_eventsAll_cons, Node.feed_outer, ih, List.foldl_cons]

end Feed

end MarkdownEdits
