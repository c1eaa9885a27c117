import MarkdownEdits.Proofs.TableShape

/-!
# Tables read back

The text of a table can be read: its lines are the header, a divider and the rows, and behind its
opener a line is cut at the separators. Where no cell holds a bar or a line feed, what is read are the
cells that were written, so that two such tables never have the same text.
-/

namespace MarkdownEdits

namespace Table

/-! ### Reading a table -/

/-- The cells of a text in which each one has a separator behind it. What has been read of the next
cell is held back, last character first. -/
def cut? (held : List Char) : List Char → Option (List String)
  | [] => if held.isEmpty then some [] else none
  | ' ' :: '|' :: ' ' :: rest => (cut? [] rest).map (.ofList held.reverse :: ·)
  | c :: rest => cut? (c :: held) rest

/-- The cells of a line, behind its opener. -/
def readLine? : List Char → Option (List String)
  | '|' :: ' ' :: cells => cut? [] cells
  | _ => none

/-- The header and the rows of a text. Empty lines are left out, and so is the divider. -/
def read? (text : String) : Option (List String × List (List String)) :=
  match (Text.lines text.toList).filter fun line => !line.isEmpty with
  | header :: _ :: rows => do return (← readLine? header, ← rows.mapM readLine?)
  | _ => none

/-- A cell is read up to the separator behind it. -/
theorem cut?_cell {cell : List Char} (h : '|' ∉ cell) (held rest : List Char) :
    cut? held (cell ++ ' ' :: '|' :: ' ' :: rest) =
      (cut? [] rest).map (.ofList (held.reverse ++ cell) :: ·) := by
  induction cell generalizing held with
  | nil => rw [List.nil_append, cut?, List.append_nil]
  | cons c cell ih =>
    obtain ⟨-, hcell⟩ := not_or.1 (List.mem_cons.not.1 h)
    -- the bar of a separator cannot come next: it is the cell's next character or a space
    have hnext : ∀ more, c = ' ' → cell ++ ' ' :: '|' :: ' ' :: rest = '|' :: ' ' :: more → False := by
      intro more _ heq
      cases cell with
      | nil => cases heq
      | cons d cell =>
        obtain rfl := (List.cons.inj heq).1
        exact hcell List.mem_cons_self
    rw [List.cons_append, cut?.eq_3 held c _ hnext, ih hcell, List.reverse_cons, List.append_assoc,
      List.singleton_append]

theorem toList_lineText (cells : List String) :
    (lineText cells).toList = '|' :: ' ' :: (cellsText cells).toList := by
  rw [lineText, String.toList_append]
  rfl

/-- A line is read as its cells. -/
theorem readLine?_lineText {cells : List String} (h : ∀ cell ∈ cells, '|' ∉ cell.toList) :
    readLine? (lineText cells).toList = some cells := by
  have hcut : cut? [] (cellsText cells).toList = some cells := by
    induction cells with
    | nil => rfl
    | cons cell cells ih =>
      obtain ⟨hcell, hcells⟩ := List.forall_mem_cons.1 h
      have htext : (cellsText (cell :: cells)).toList =
          cell.toList ++ ' ' :: '|' :: ' ' :: (cellsText cells).toList := by
        rw [cellsText_cons, String.toList_append, String.toList_append, List.append_assoc]
        rfl
      rw [htext, cut?_cell hcell, ih hcells, Option.map_some, List.reverse_nil, List.nil_append,
        String.ofList_toList]
  rw [toList_lineText, readLine?, hcut]

/-- **A table is read back from its text**, with the empty line behind it. -/
theorem read?_render {header : List String} {rows : List (List String)}
    (hbars : ∀ cell ∈ header ++ rows.flatten, '|' ∉ cell.toList)
    (hfeeds : ∀ cell ∈ header ++ rows.flatten, '\n' ∉ cell.toList) :
    read? (render header rows ++ "\n") = some (header, rows) := by
  obtain ⟨hheader, hrows⟩ := List.forall_mem_append.1 hbars
  have hlines : Text.lines (render header rows ++ "\n").toList =
      (lineTexts header rows).map String.toList ++ [[]] := by
    rw [String.toList_append, (linesEnd_render header rows).lines_append, lines_render hfeeds]
    rfl
  have hfull : ((lineTexts header rows).map String.toList ++ [[]]).filter
      (fun line => !line.isEmpty) = (lineTexts header rows).map String.toList := by
    have hall : ∀ line ∈ (lineTexts header rows).map String.toList, (!line.isEmpty) = true := by
      intro line hline
      obtain ⟨t, ht, rfl⟩ := List.mem_map.1 hline
      obtain ⟨cells, rfl⟩ := exists_of_mem_lineTexts ht
      rw [toList_lineText]
      rfl
    rw [List.filter_append, List.filter_eq_self.2 hall]
    exact List.append_nil _
  have hread : (rows.map fun row => (lineText row).toList).mapM readLine? = some rows := by
    clear hbars hfeeds hlines hfull
    induction rows with
    | nil => rfl
    | cons row rows ih =>
      rw [List.flatten_cons, List.forall_mem_append] at hrows
      rw [List.map_cons, List.mapM_cons, readLine?_lineText hrows.1, ih hrows.2]
      rfl
  rw [read?, hlines, hfull, lineTexts]
  simp only [List.map_cons, List.map_map, Function.comp_def, readLine?_lineText hheader, hread]
  rfl

end Table

/-! ### From events to the document and back -/

/-- The text that is inserted for the block at an index. -/
def Compilation.insertedAt? (c : Compilation) (i : ℕ) : Option String := do
  let b ← c.blocks[i]?
  return String.join (((c.edits.drop b.first).take (b.stop - b.first)).filterMap Edit.insertedText?)

/-- For a table its text is inserted, with one line feed more. -/
theorem insertedAt?_table (o : Options) {tokens : List BlockToken} {i : ℕ} {header : List String}
    {rows : List (List String)} (h : tokens[i]? = some (.table header rows)) :
    ∃ c, compile o tokens = .ok c ∧
      c.insertedAt? i = some (Table.render header rows ++ "\n") := by
  obtain ⟨c, b, hcompile, hb, hedits⟩ := compile_table_edits o h
  refine ⟨c, hcompile, ?_⟩
  rw [Compilation.insertedAt?, hb, Option.bind_eq_bind, Option.bind_some, hedits]
  exact congrArg some String.empty_append

/-- No cell of the table has a bar or a line feed in its text. -/
def TableTree.IsPlain (source : String) (t : TableTree) : Prop :=
  ∀ row ∈ t.head :: t.rows, ∀ cell ∈ row.cells,
    '|' ∉ (cell.text source).toList ∧ '\n' ∉ (cell.text source).toList

section Plain

variable {source : String} {t : TableTree}

theorem TableTree.IsPlain.texts (h : t.IsPlain source) :
    ∀ text ∈ t.header source ++ (t.body source).flatten, '|' ∉ text.toList ∧ '\n' ∉ text.toList := by
  obtain ⟨hhead, hrows⟩ := List.forall_mem_cons.1 h
  intro text htext
  rcases List.mem_append.1 htext with hheader | hbody
  · obtain ⟨cell, hcell, rfl⟩ := List.mem_map.1 hheader
    exact hhead cell hcell
  · obtain ⟨texts, htexts, htext⟩ := List.mem_flatten.1 hbody
    obtain ⟨row, hrow, rfl⟩ := List.mem_map.1 htexts
    obtain ⟨cell, hcell, rfl⟩ := List.mem_map.1 htext
    exact hrows row hrow cell hcell

theorem TableTree.IsPlain.read?_render (h : t.IsPlain source) :
    Table.read? (Table.render (t.header source) (t.body source) ++ "\n") =
      some (t.header source, t.body source) :=
  Table.read?_render (fun text htext => (h.texts text htext).1)
    (fun text htext => (h.texts text htext).2)

/-- **Tables survive being written as text.** The events of a table are lexed to one token. Where no
cell has a bar or a line feed in its text, the header and all rows are read back from the text that
is inserted for this token: in each row as many cells as it has, each the trimmed text of its own
content. So no other such table, wherever it is compiled, has the same text. -/
theorem table_survives (hread : Readable source t.node.events) (hplain : t.IsPlain source) :
    lex ⟨source, t.node.events⟩ = .ok [.table (t.header source) (t.body source)] ∧
      ∀ (o : Options) (tokens : List BlockToken) (i : ℕ),
        tokens[i]? = some (.table (t.header source) (t.body source)) →
        ∃ c text, compile o tokens = .ok c ∧ c.insertedAt? i = some text ∧
          Table.read? text =
            some (t.head.cells.map fun cell => Text.trim (Node.textAll source cell.content),
              t.rows.map fun row =>
                row.cells.map fun cell => Text.trim (Node.textAll source cell.content)) ∧
          ∀ (source' : String) (t' : TableTree) (o' : Options) (tokens' : List BlockToken) (j : ℕ)
            (c' : Compilation), t'.IsPlain source' →
            tokens'[j]? = some (.table (t'.header source') (t'.body source')) →
            compile o' tokens' = .ok c' → c'.insertedAt? j = some text →
              t'.header source' = t.header source ∧ t'.body source' = t.body source := by
  refine ⟨lex_table hread, fun o tokens i htoken => ?_⟩
  obtain ⟨c, hcompile, htext⟩ := insertedAt?_table o htoken
  refine ⟨c, _, hcompile, htext, hplain.read?_render, ?_⟩
  intro source' t' o' tokens' j c' hplain' htoken' hcompile' htext'
  obtain ⟨d, hd, hinserted⟩ := insertedAt?_table o' htoken'
  have heq : d = c' := Except.ok.inj (hd.symm.trans hcompile')
  rw [heq, htext'] at hinserted
  have hsame := hplain'.read?_render
  rw [← Option.some.inj hinserted, hplain.read?_render] at hsame
  obtain ⟨hheader, hbody⟩ := Prod.mk.inj (Option.some.inj hsame)
  exact ⟨hheader.symm, hbody.symm⟩

end Plain

/-- The table ``"| c |  |\n|---|---|\n| *x* | `y` |\n|\n"``, its second cell empty, its first row with
an empty cell between two others, and its second row without cells. -/
def raggedTable : TableTree where
  range := ⟨0, 35⟩
  head := ⟨⟨0, 9⟩, [⟨⟨1, 4⟩, [.leaf (.text "c") ⟨2, 3⟩], rfl⟩, ⟨⟨5, 7⟩, [], rfl⟩]⟩
  rows := [
    ⟨⟨19, 33⟩, [
      ⟨⟨20, 25⟩, [.element (.plain .emphasis) ⟨21, 24⟩ [.leaf (.text "x") ⟨22, 23⟩]], rfl⟩,
      ⟨⟨25, 25⟩, [], rfl⟩, ⟨⟨26, 31⟩, [.leaf (.code "y") ⟨27, 30⟩], rfl⟩]⟩,
    ⟨⟨33, 35⟩, []⟩]

theorem table_survives_of_ragged :
    lex ⟨"| c |  |\n|---|---|\n| *x* | `y` |\n|\n", raggedTable.node.events⟩ =
        .ok [.table ["c", ""] [["x", "", "`y`"], []]] ∧
      ∃ c text, compile {} [.blank, .table ["c", ""] [["x", "", "`y`"], []]] = .ok c ∧
        c.insertedAt? 1 = some text ∧
        Table.read? text = some (["c", ""], [["x", "", "`y`"], []]) := by
  have hread : Readable "| c |  |\n|---|---|\n| *x* | `y` |\n|\n" raggedTable.node.events := by
    decide
  have hplain : raggedTable.IsPlain "| c |  |\n|---|---|\n| *x* | `y` |\n|\n" := by
    unfold TableTree.IsPlain
    decide
  obtain ⟨hlex, hcompile⟩ := table_survives hread hplain
  obtain ⟨c, text, hc, htext, hcells, -⟩ :=
    hcompile {} [.blank, .table ["c", ""] [["x", "", "`y`"], []]] 1 (by decide)
  exact ⟨hlex, c, text, hc, htext, hcells⟩

end MarkdownEdits
