import MarkdownEdits.Proofs.Groups

/-!
# The layout of a document

The events of a forest are those of a sequence of groups, one for each node at the outermost level.
So the nodes become one token each, which depends on the source and the node alone, and between two
of them goes a blank token where the text between them has two line feeds.
-/

namespace MarkdownEdits

/-! ### The token of a node -/

/-- The block that a node makes, with all that is inside the node. -/
def Node.block (source : String) : Node → Except BadSlice OpenBlock
  | .leaf _ r => (Text.withIndent source r).map .raw
  | .element tag r children =>
    (OpenBlock.ofTag source tag r).map fun b =>
      (Node.eventsAll children).foldl (OpenBlock.feed source) b

/-- The token of a node. -/
def Node.token (source : String) (n : Node) : Except BadSlice BlockToken :=
  n.block source >>= OpenBlock.token source

/-- A node as a group: what is inside it, whatever it is, is balanced. -/
def Node.group : Node → Group
  | .leaf l r => .leaf l r
  | .element tag r children =>
    .element tag r (Node.eventsAll children) tag.kind r (Node.isBalanced_eventsAll children)

@[simp] theorem Node.range_group (n : Node) : n.group.range = n.range := by cases n <;> rfl

@[simp] theorem Node.events_group (n : Node) : n.group.events = n.events := by
  cases n <;> simp [Node.group, Group.events, Node.events]

theorem Node.token_group (source : String) (n : Node) : n.group.token source = n.token source := by
  cases n <;> rfl

theorem Node.flatMap_events_group (nodes : List Node) :
    (nodes.map Node.group).flatMap Group.events = Node.eventsAll nodes := by
  induction nodes with
  | nil => rfl
  | cons n nodes ih =>
    rw [List.map_cons, List.flatMap_cons, ih, Node.events_group, Node.eventsAll]

/-- A node alone is lexed to its token. -/
theorem lex_node {source : String} {n : Node} {token : BlockToken}
    (hread : Readable source n.events) (htoken : n.token source = .ok token) :
    lex ⟨source, n.events⟩ = .ok [token] := by
  rw [← n.events_group] at hread ⊢
  rw [← n.token_group] at htoken
  exact Group.lex_events hread htoken

/-! ### The layout -/

/-- Nodes with their tokens, and the blank tokens between them. -/
def layout (separated : Nat → Nat → Bool) : Option Nat → List (Node × BlockToken) → List BlockToken
  | _, [] => []
  | last, (node, token) :: rest =>
    separator separated last node.range.start ++
      token :: layout separated (some node.range.stop) rest

/-- The ranges follow each other. -/
def InOrder (nodes : List Node) : Prop :=
  nodes.Pairwise fun n m => n.range.stop ≤ m.range.start

instance (nodes : List Node) : Decidable (InOrder nodes) := by
  unfold InOrder
  infer_instance

section Layout

variable {source : String}

theorem layout_group (separated : Nat → Nat → Bool) (last : Option Nat)
    (groups : List (Node × BlockToken)) :
    Group.layout separated last (groups.map (Prod.map Node.group id)) =
      layout separated last groups := by
  induction groups generalizing last with
  | nil => rfl
  | cons g groups ih =>
    obtain ⟨node, token⟩ := g
    rw [List.map_cons, Prod.map, Group.layout, layout, ih, Node.range_group]
    rfl

theorem readable_of_mem {nodes : List Node} (hread : Readable source (Node.eventsAll nodes))
    {n : Node} (hn : n ∈ nodes) : Readable source n.events := by
  intro e he
  apply hread
  rw [← Node.flatMap_events_group, List.mem_flatMap]
  exact ⟨n.group, List.mem_map_of_mem hn, by rwa [n.events_group]⟩

/-- **The tokens of a document** are those of its nodes, each as it is lexed alone, with a blank
token between two nodes whose gap has two line feeds. -/
theorem lex_layout {nodes : List Node} (horder : InOrder nodes)
    (hread : Readable source (Node.eventsAll nodes)) :
    ∃ groups : List (Node × BlockToken), groups.map Prod.fst = nodes ∧
      (∀ g ∈ groups, lex ⟨source, g.1.events⟩ = .ok [g.2] ∧ g.2 ≠ .blank) ∧
      lex ⟨source, Node.eventsAll nodes⟩ =
        .ok (layout (Text.hasTwoLineFeeds source) none groups) := by
  have horder' : Group.InOrder (nodes.map Node.group) := by
    refine List.pairwise_map.2 (horder.imp fun h => ?_)
    rwa [Node.range_group, Node.range_group]
  have hread' : ∀ g ∈ nodes.map Node.group, Readable source g.events := by
    intro g hg
    obtain ⟨n, hn, rfl⟩ := List.mem_map.1 hg
    rw [n.events_group]
    exact readable_of_mem hread hn
  obtain ⟨placed, hplaced, htokens, hlex⟩ := Group.lex_flatMap_events horder' hread'
  have hlength : nodes.length = (placed.map Prod.snd).length := by
    rw [List.length_map, ← List.length_map Prod.fst, hplaced, List.length_map]
  have hgroups : placed = (nodes.zip (placed.map Prod.snd)).map (Prod.map Node.group id) := by
    have hzip := List.zip_unzip placed
    rw [List.unzip_eq_map, hplaced] at hzip
    rw [← List.zip_map, List.map_id]
    exact hzip.symm
  refine ⟨nodes.zip (placed.map Prod.snd), List.map_fst_zip (Nat.le_of_eq hlength), ?_, ?_⟩
  · intro g hg
    have hmem : Prod.map Node.group id g ∈ placed := by
      rw [hgroups]
      exact List.mem_map_of_mem hg
    have h := htokens _ hmem
    rwa [Prod.map_fst, Node.events_group] at h
  · rw [← Node.flatMap_events_group, hlex, ← layout_group, ← hgroups]

end Layout

end MarkdownEdits
