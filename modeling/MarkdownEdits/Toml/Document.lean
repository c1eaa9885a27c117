import MarkdownEdits.Toml.Value

/-!
# TOML documents from statements

Headers open tables and assignments fill them. Every table is defined once: by one header, by dotted
keys, or in braces, and no key is assigned twice.
-/

namespace MarkdownEdits.Toml

inductive Statement
  | header (key : List String)
  /-- A header in double brackets, which opens one more table of its name. -/
  | tablesHeader (key : List String)
  | assign (key : List String) (value : Value)
  deriving Repr, Inhabited

/-- A table under construction. -/
structure Node where
  origin : Origin
  entries : List (String × Value)
  deriving Repr, Inhabited

def Node.value (n : Node) : Value := .table n.origin n.entries

/-- The entries with the value of a key replaced. -/
def replaceEntry (key : String) (v : Value) : List (String × Value) → List (String × Value)
  | [] => []
  | (k, w) :: rest => if k = key then (k, v) :: rest else (k, w) :: replaceEntry key v rest

/-- Changes the table at a path. Tables that are missing on the way are made; of several tables under
one name the last one is meant. A dotted key leads through no table that has a header. -/
def update (dotted : Bool) (change : Node → Option Node) : List String → Node → Option Node
  | [], n => change n
  | key :: path, n =>
    match n.entries.lookup key with
    | none => do
      let child ← update dotted change path ⟨if dotted then .dotted else .implicit, []⟩
      return { n with entries := n.entries ++ [(key, child.value)] }
    | some (.table origin entries) =>
      if origin = .inline ∨ (dotted ∧ origin = .header) then none
      else do
        let child ← update dotted change path ⟨origin, entries⟩
        return { n with entries := replaceEntry key child.value n.entries }
    | some (.tables items) =>
      match items.getLast? with
      | none => none
      | some last => do
        let child ← update dotted change path ⟨.header, last⟩
        return { n with
          entries := replaceEntry key (.tables (items.dropLast ++ [child.entries])) n.entries }
    | some _ => none

/-- Adds an entry under a new key. -/
def addEntry (key : String) (v : Value) (n : Node) : Option Node :=
  match n.entries.lookup key with
  | none => some { n with entries := n.entries ++ [(key, v)] }
  | some _ => none

/-- Assigns a value to a dotted key. Tables of dotted keys and others do not mix. -/
def assign (key : List String) (v : Value) (n : Node) : Option Node :=
  match key.getLast? with
  | none => none
  | some last =>
    let path := key.dropLast
    update true (fun t => if t.origin = .dotted ↔ path = [] then none else addEntry last v t)
      path n

/-- Opens the table of a header: a new one, or one that has only been named on the way to others. -/
def openTable (key : List String) (n : Node) : Option Node :=
  match key.getLast? with
  | none => none
  | some last =>
    update false (fun t =>
      match t.entries.lookup last with
      | none => some { t with entries := t.entries ++ [(last, .table .header [])] }
      | some (.table .implicit entries) =>
        some { t with entries := replaceEntry last (.table .header entries) t.entries }
      | some _ => none) key.dropLast n

/-- Opens one more table under a name. -/
def openTables (key : List String) (n : Node) : Option Node :=
  match key.getLast? with
  | none => none
  | some last =>
    update false (fun t =>
      match t.entries.lookup last with
      | none => some { t with entries := t.entries ++ [(last, .tables [[]])] }
      | some (.tables items) =>
        some { t with entries := replaceEntry last (.tables (items ++ [[]])) t.entries }
      | some _ => none) key.dropLast n

/-- A document so far, and the key of the table that is open. -/
structure Document where
  root : Node
  current : List String
  deriving Repr, Inhabited

def Document.step (d : Document) : Statement → Option Document
  | .header key => (openTable key d.root).map fun root => ⟨root, key⟩
  | .tablesHeader key => (openTables key d.root).map fun root => ⟨root, key⟩
  | .assign key v => (update false (assign key v) d.current d.root).map fun root => { d with root }

/-- The entries of the document that statements make. -/
def build? (statements : List Statement) : Option (List (String × Value)) :=
  (statements.foldlM Document.step ⟨⟨.header, []⟩, []⟩).map fun d => d.root.entries

end MarkdownEdits.Toml
