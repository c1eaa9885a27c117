import MarkdownEdits.Proofs.InlineForest
import MarkdownEdits.Proofs.Layout

/-!
# Table trees

A table has a head and rows of cells, and in each cell there is inline content. The table builder
reads the cells one by one: each becomes the text of its own content, trimmed, and each row has the
cells it has (`lex_table`).
-/

namespace MarkdownEdits

/-! ### Trees -/

/-- The elements that a table is made of. -/
def TagKind.isTablePart : TagKind → Bool
  | .tableHead | .tableRow | .tableCell => true
  | _ => false

mutual
/-- A node that no part of a table stands in. -/
def Node.isCellContent : Node → Bool
  | .leaf _ _ => true
  | .element tag _ children => !tag.kind.isTablePart && Node.allCellContent children
def Node.allCellContent : List Node → Bool
  | [] => true
  | n :: ns => n.isCellContent && Node.allCellContent ns
end

structure TableCell where
  range : ByteRange
  content : List Node
  isContent : Node.allCellContent content = true

/-- The head of a table, or one of its rows. -/
structure TableRow where
  range : ByteRange
  cells : List TableCell

structure TableTree where
  range : ByteRange
  head : TableRow
  rows : List TableRow

def TableCell.node (c : TableCell) : Node := .element (.plain .tableCell) c.range c.content

def TableRow.node (kind : TagKind) (r : TableRow) : Node :=
  .element (.plain kind) r.range (r.cells.map TableCell.node)

def TableTree.node (t : TableTree) : Node :=
  .element (.plain .table) t.range (t.head.node .tableHead :: t.rows.map (TableRow.node .tableRow))

section Texts

variable (source : String)

/-- The text of a cell: that of its content, without the blanks at both ends. -/
def TableCell.text (c : TableCell) : String := Text.trim (Node.textAll source c.content)

def TableRow.texts (r : TableRow) : List String := r.cells.map (TableCell.text source)

def TableTree.header (t : TableTree) : List String := t.head.texts source

def TableTree.body (t : TableTree) : List (List String) := t.rows.map (TableRow.texts source)

end Texts

/-! ### Feeding a table -/

/-- An event inside a table, with the source text of its range. -/
def TableBuilder.feed (source : String) (b : TableBuilder) (e : SourceEvent) : TableBuilder :=
  match e.event with
  | .start tag => b.start tag (Text.textOf source e.range)
  | .stop kind => b.stop kind
  | .leaf l => b.leaf l (Text.textOf source e.range)

section Feed

variable {source : String}

@[simp] theorem TableBuilder.feed_start (b : TableBuilder) (tag : Tag) (r : ByteRange) :
    b.feed source ⟨.start tag, r⟩ = b.start tag (Text.textOf source r) := rfl

@[simp] theorem TableBuilder.feed_stop (b : TableBuilder) (kind : TagKind) (r : ByteRange) :
    b.feed source ⟨.stop kind, r⟩ = b.stop kind := rfl

theorem OpenBlock.foldl_feed_table (cells : TableBuilder) (events : List SourceEvent) :
    events.foldl (OpenBlock.feed source) (.table cells) =
      .table (events.foldl (TableBuilder.feed source) cells) := by
  refine List.foldl_hom OpenBlock.table ?_
  rintro cells ⟨event, r⟩
  cases event <;> rfl

theorem TableBuilder.mapCell_mapCell (b : TableBuilder) (f g : InlineBuilder → InlineBuilder) :
    (b.mapCell f).mapCell g = b.mapCell fun i => g (f i) := by
  simp [mapCell, Function.comp_def]

theorem TableBuilder.start_content {tag : Tag} (h : tag.kind.isTablePart = false) (b : TableBuilder)
    (text : String) : b.start tag text = b.mapCell (·.start tag text) := by
  unfold TableBuilder.start
  cases hkind : tag.kind <;> simp_all [TagKind.isTablePart]

theorem TableBuilder.stop_content {kind : TagKind} (h : kind.isTablePart = false)
    (b : TableBuilder) : b.stop kind = b.mapCell (·.stop) := by
  unfold TableBuilder.stop
  cases kind <;> simp_all [TagKind.isTablePart]

mutual
/-- The content of a cell changes the open cell alone. -/
theorem Node.feed_cell (n : Node) (h : n.isCellContent = true) (b : TableBuilder) :
    n.events.foldl (TableBuilder.feed source) b =
      b.mapCell fun i => n.events.foldl (InlineBuilder.feed source) i := by
  cases n with
  | leaf l r => rfl
  | element tag r children =>
    rw [Node.isCellContent, Bool.and_eq_true, Bool.not_eq_true'] at h
    rw [Node.foldl_element, TableBuilder.feed_start, TableBuilder.start_content h.1,
      Node.feedAll_cell children h.2, TableBuilder.mapCell_mapCell, TableBuilder.feed_stop,
      TableBuilder.stop_content h.1, TableBuilder.mapCell_mapCell]
    simp only [Node.foldl_element]
    rfl
theorem Node.feedAll_cell (nodes : List Node) (h : Node.allCellContent nodes = true)
    (b : TableBuilder) :
    (Node.eventsAll nodes).foldl (TableBuilder.feed source) b =
      b.mapCell fun i => (Node.eventsAll nodes).foldl (InlineBuilder.feed source) i := by
  cases nodes with
  | nil => simp [Node.eventsAll, TableBuilder.mapCell]
  | cons n nodes =>
    rw [Node.allCellContent, Bool.and_eq_true] at h
    rw [Node.foldl_eventsAll_cons, Node.feed_cell n h.1, Node.feedAll_cell nodes h.2,
      TableBuilder.mapCell_mapCell]
    simp only [Node.foldl_eventsAll_cons]
end

variable (header row : List String) (rows : List (List String))

/-- A cell adds its text to the row. -/
theorem TableCell.feed (c : TableCell) :
    c.node.events.foldl (TableBuilder.feed source) ⟨header, rows, row, none⟩ =
      ⟨header, rows, row ++ [c.text source], none⟩ := by
  have htext : InlineBuilder.plainText ⟨c.content.foldl (Node.appendTo source) [], none, 0⟩ =
      Node.textAll source c.content := by
    rw [InlineBuilder.plainText, Node.renderAll_foldl_appendTo]
    exact String.append_empty.trans String.empty_append
  have hstart : TableBuilder.start ⟨header, rows, row, none⟩ (.plain .tableCell)
      (Text.textOf source c.range) = ⟨header, rows, row, some {}⟩ := rfl
  rw [TableCell.node, Node.foldl_element, TableBuilder.feed_start, hstart,
    Node.feedAll_cell c.content c.isContent]
  simp only [TableBuilder.mapCell, Option.map_some, Node.feedAll_outer, TableBuilder.feed_stop,
    TableBuilder.stop, Tag.kind, htext, TableCell.text]

theorem TableCell.feed_all (cells : List TableCell) :
    (Node.eventsAll (cells.map TableCell.node)).foldl (TableBuilder.feed source)
        ⟨header, rows, row, none⟩ =
      ⟨header, rows, row ++ cells.map (TableCell.text source), none⟩ := by
  induction cells generalizing row with
  | nil => rw [List.map_nil, List.map_nil, List.append_nil]; rfl
  | cons c cells ih =>
    rw [List.map_cons, Node.foldl_eventsAll_cons, c.feed, ih, List.map_cons, List.append_assoc,
      List.singleton_append]

theorem TableRow.feed_head (r : TableRow) :
    (r.node .tableHead).events.foldl (TableBuilder.feed source) ⟨header, rows, [], none⟩ =
      ⟨r.texts source, rows, [], none⟩ := by
  have hstart : TableBuilder.start ⟨header, rows, [], none⟩ (.plain .tableHead)
      (Text.textOf source r.range) = ⟨header, rows, [], none⟩ := rfl
  rw [TableRow.node, Node.foldl_element, TableBuilder.feed_start, hstart, TableCell.feed_all]
  rfl

theorem TableRow.feed_rows (more : List TableRow) :
    (Node.eventsAll (more.map (TableRow.node .tableRow))).foldl (TableBuilder.feed source)
        ⟨header, rows, [], none⟩ =
      ⟨header, rows ++ more.map (TableRow.texts source), [], none⟩ := by
  induction more generalizing rows with
  | nil => rw [List.map_nil, List.map_nil, List.append_nil]; rfl
  | cons r more ih =>
    have hstart : TableBuilder.start ⟨header, rows, [], none⟩ (.plain .tableRow)
        (Text.textOf source r.range) = ⟨header, rows, [], none⟩ := rfl
    have hrow : (r.node .tableRow).events.foldl (TableBuilder.feed source)
        ⟨header, rows, [], none⟩ = ⟨header, rows ++ [r.texts source], [], none⟩ := by
      rw [TableRow.node, Node.foldl_element, TableBuilder.feed_start, hstart, TableCell.feed_all]
      rfl
    rw [List.map_cons, Node.foldl_eventsAll_cons, hrow, ih, List.map_cons, List.append_assoc,
      List.singleton_append]

end Feed

/-- **A table is read cell by cell.** -/
theorem lex_table {source : String} {t : TableTree} (hread : Readable source t.node.events) :
    lex ⟨source, t.node.events⟩ = .ok [.table (t.header source) (t.body source)] := by
  have hfeed : (Node.eventsAll
      (t.head.node .tableHead :: t.rows.map (TableRow.node .tableRow))).foldl
        (TableBuilder.feed source) {} = ⟨t.header source, t.body source, [], none⟩ := by
    rw [Node.foldl_eventsAll_cons, TableRow.feed_head, TableRow.feed_rows, List.nil_append]
    rfl
  apply lex_node hread
  simp only [TableTree.node, Node.token, Node.block, OpenBlock.ofTag, Except.map,
    OpenBlock.foldl_feed_table, hfeed, bind, Except.bind, OpenBlock.token]

end MarkdownEdits
