import MarkdownEdits.Event.Lex
import MarkdownEdits.Proofs.Slices

/-!
# Forests of elements

An event stream lists a forest of elements; it is balanced, each element ending where it should.
What stands inside an element at the outermost level is folded into the block that the element opens,
whatever it is, and leaves the rest of the lexer alone.
-/

namespace MarkdownEdits

/-- An element with what is inside it, or an event without an inside. -/
inductive Node
  | leaf (leaf : Leaf) (range : ByteRange)
  | element (tag : Tag) (range : ByteRange) (children : List Node)

def Node.range : Node → ByteRange
  | .leaf _ r => r
  | .element _ r _ => r

mutual
/-- The events of a node. -/
def Node.events : Node → List SourceEvent
  | .leaf l r => [⟨.leaf l, r⟩]
  | .element tag r children =>
    ⟨.start tag, r⟩ :: (Node.eventsAll children ++ [⟨.stop tag.kind, r⟩])
/-- The events of a forest. -/
def Node.eventsAll : List Node → List SourceEvent
  | [] => []
  | node :: nodes => node.events ++ Node.eventsAll nodes
end

/-- A fold over an element goes through its start, its inside and its end. -/
theorem Node.foldl_element {σ : Type} (f : σ → SourceEvent → σ) (s : σ) (tag : Tag) (r : ByteRange)
    (children : List Node) :
    (Node.element tag r children).events.foldl f s =
      f ((Node.eventsAll children).foldl f (f s ⟨.start tag, r⟩)) ⟨.stop tag.kind, r⟩ := by
  rw [events, List.foldl_cons, List.foldl_append, List.foldl_cons, List.foldl_nil]

theorem Node.foldl_leaf {σ : Type} (f : σ → SourceEvent → σ) (s : σ) (l : Leaf) (r : ByteRange) :
    (Node.leaf l r).events.foldl f s = f s ⟨.leaf l, r⟩ := rfl

theorem Node.foldl_eventsAll_cons {σ : Type} (f : σ → SourceEvent → σ) (s : σ) (n : Node)
    (ns : List Node) :
    (Node.eventsAll (n :: ns)).foldl f s = (Node.eventsAll ns).foldl f (n.events.foldl f s) := by
  rw [eventsAll, List.foldl_append]

/-! ### Readable events -/

/-- The range of every event can be read. -/
def Readable (source : String) (events : List SourceEvent) : Prop :=
  ∀ e ∈ events, e.range.Within source

instance (source : String) (events : List SourceEvent) : Decidable (Readable source events) := by
  unfold Readable
  infer_instance

section Readable

variable {source : String}

@[simp] theorem readable_cons {e : SourceEvent} {es : List SourceEvent} :
    Readable source (e :: es) ↔ e.range.Within source ∧ Readable source es := by
  simp [Readable]

@[simp] theorem readable_append {es es' : List SourceEvent} :
    Readable source (es ++ es') ↔ Readable source es ∧ Readable source es' := by
  simp [Readable, or_imp, forall_and]

/-- The range of a node is that of its first event. -/
theorem Node.within_range {n : Node} (h : Readable source n.events) : n.range.Within source := by
  cases n with
  | leaf l r => exact (readable_cons.1 h).1
  | element tag r children => exact (readable_cons.1 h).1

end Readable

/-! ### Events inside a block -/

/-- An event inside a block, with the source text of its range. -/
def OpenBlock.feed (source : String) (b : OpenBlock) (e : SourceEvent) : OpenBlock :=
  match e.event with
  | .start tag => b.start tag (Text.textOf source e.range)
  | .stop kind => b.stop kind
  | .leaf l => b.leaf l (Text.textOf source e.range)

section Inside

variable {source : String} {l : Lexer} {r : ByteRange}

theorem step_start_inside (hd : 0 < l.depth) (hr : r.Within source) (tag : Tag) :
    l.step source ⟨.start tag, r⟩ =
      .ok { l.mapBlock (OpenBlock.start tag (Text.textOf source r)) with depth := l.depth + 1 } := by
  have hne : l.depth ≠ 0 := by omega
  simp only [Lexer.step, Lexer.startElement, if_neg hne, Text.slice_eq_textOf hr, bind,
    Except.bind, pure, Except.pure, Lexer.mapBlock]

theorem step_stop_inside (hd : 1 < l.depth) (kind : TagKind) :
    l.step source ⟨.stop kind, r⟩ =
      .ok { l.mapBlock (OpenBlock.stop kind) with depth := l.depth - 1 } := by
  have hne : l.depth - 1 ≠ 0 := by omega
  simp only [Lexer.step, if_neg hne, Lexer.mapBlock]

theorem step_leaf_inside (hd : 0 < l.depth) (hr : r.Within source) (leaf : Leaf) :
    l.step source ⟨.leaf leaf, r⟩ =
      .ok (l.mapBlock (OpenBlock.leaf leaf (Text.textOf source r))) := by
  have hne : l.depth ≠ 0 := by omega
  simp only [Lexer.step, if_neg hne, Text.slice_eq_textOf hr, bind, Except.bind, pure, Except.pure]

end Inside

section Fold

variable {α σ ε : Type} {f : σ → α → Except ε σ} {s s' : σ}

theorem foldlM_cons_ok {a : α} {as : List α} (h : f s a = .ok s') :
    (a :: as).foldlM f s = as.foldlM f s' := by
  rw [List.foldlM_cons, h]
  rfl

theorem foldlM_append_ok {as bs : List α} (h : as.foldlM f s = .ok s') :
    (as ++ bs).foldlM f s = bs.foldlM f s' := by
  rw [List.foldlM_append, h]
  rfl

end Fold

/-- The events change the open block alone. -/
def Lexer.feedAll (source : String) (l : Lexer) (events : List SourceEvent) : Lexer :=
  l.mapBlock fun b => events.foldl (OpenBlock.feed source) b

theorem Lexer.feedAll_nil (source : String) (l : Lexer) : l.feedAll source [] = l := by
  simp [feedAll, mapBlock]

theorem Lexer.feedAll_append (source : String) (l : Lexer) (es es' : List SourceEvent) :
    l.feedAll source (es ++ es') = (l.feedAll source es).feedAll source es' := by
  simp [feedAll, mapBlock, Function.comp_def]

/-- Whether the events end the elements that start among them, and `depth` elements besides. -/
def isBalanced : Nat → List SourceEvent → Bool
  | depth, [] => depth == 0
  | depth, e :: es =>
    match e.event, depth with
    | .start _, depth => isBalanced (depth + 1) es
    | .stop _, depth + 1 => isBalanced depth es
    | .stop _, 0 => false
    | .leaf _, depth => isBalanced depth es

@[simp] theorem isBalanced_start (depth : Nat) (tag : Tag) (r : ByteRange)
    (es : List SourceEvent) : isBalanced depth (⟨.start tag, r⟩ :: es) = isBalanced (depth + 1) es :=
  rfl

@[simp] theorem isBalanced_stop (depth : Nat) (kind : TagKind) (r : ByteRange)
    (es : List SourceEvent) : isBalanced (depth + 1) (⟨.stop kind, r⟩ :: es) = isBalanced depth es :=
  rfl

@[simp] theorem isBalanced_leaf (depth : Nat) (leaf : Leaf) (r : ByteRange)
    (es : List SourceEvent) : isBalanced depth (⟨.leaf leaf, r⟩ :: es) = isBalanced depth es := by
  cases depth <;> rfl

/-- **Inside an element nothing but the open block changes**, whatever elements start and end
there. -/
theorem foldlM_inside {source : String} {events : List SourceEvent} {depth : Nat} {l : Lexer}
    (hbalanced : isBalanced depth events = true) (hd : l.depth = depth + 1)
    (h : Readable source events) :
    events.foldlM (Lexer.step source) l = .ok { l.feedAll source events with depth := 1 } := by
  induction events generalizing depth l with
  | nil =>
    obtain rfl : depth = 0 := by simpa [isBalanced] using hbalanced
    rw [Lexer.feedAll_nil, List.foldlM_nil]
    simp only [Nat.zero_add] at hd
    rw [← hd]
    rfl
  | cons e events ih =>
    obtain ⟨event, r⟩ := e
    obtain ⟨hr, hrest⟩ := readable_cons.1 h
    rw [show (⟨event, r⟩ :: events : List SourceEvent) = [⟨event, r⟩] ++ events from rfl,
      Lexer.feedAll_append, List.singleton_append]
    cases event with
    | start tag =>
      rw [isBalanced_start] at hbalanced
      rw [foldlM_cons_ok (step_start_inside (by omega) hr tag),
        ih hbalanced (congrArg (· + 1) hd) hrest]
      rfl
    | stop kind =>
      cases depth with
      | zero => cases hbalanced
      | succ depth =>
        rw [isBalanced_stop] at hbalanced
        rw [foldlM_cons_ok (step_stop_inside (by omega) kind),
          ih hbalanced (congrArg (· - 1) hd) hrest]
        rfl
    | leaf leaf =>
      rw [isBalanced_leaf] at hbalanced
      rw [foldlM_cons_ok (step_leaf_inside (by omega) hr leaf),
        ih (l := l.mapBlock _) hbalanced hd hrest]
      rfl

mutual
/-- A node ends what it starts. -/
theorem Node.isBalanced_events_append (node : Node) (depth : Nat) (rest : List SourceEvent) :
    isBalanced depth (node.events ++ rest) = isBalanced depth rest := by
  cases node with
  | leaf leaf r => exact isBalanced_leaf depth leaf r rest
  | element tag r children =>
    rw [Node.events, List.cons_append, List.append_assoc, isBalanced_start,
      Node.isBalanced_eventsAll_append children, List.singleton_append, isBalanced_stop]
theorem Node.isBalanced_eventsAll_append (nodes : List Node) (depth : Nat)
    (rest : List SourceEvent) :
    isBalanced depth (Node.eventsAll nodes ++ rest) = isBalanced depth rest := by
  cases nodes with
  | nil => rfl
  | cons node nodes =>
    rw [Node.eventsAll, List.append_assoc, Node.isBalanced_events_append node,
      Node.isBalanced_eventsAll_append nodes]
end

theorem Node.isBalanced_eventsAll (nodes : List Node) :
    isBalanced 0 (Node.eventsAll nodes) = true := by
  have h := Node.isBalanced_eventsAll_append nodes 0 []
  rwa [List.append_nil] at h

end MarkdownEdits
