import MarkdownEdits.Proofs.Lines
import MarkdownEdits.Proofs.TableTree
import MarkdownEdits.Proofs.WellFormed

/-!
# The shape of a table

A table is put into the document as lines of text: its header, a divider and one line for each row.
A line feed in a cell breaks the line that the cell stands in, and makes one line more; nothing else
does. So a table has as many lines as it has rows, and two, just where no cell holds a line feed.
-/

namespace MarkdownEdits

/-! ### The lines of a table -/

namespace Table

/-- Cells, each with the separator behind it. -/
def cellsText (cells : List String) : String :=
  cells.foldr (fun cell rest => cell ++ " | " ++ rest) ""

/-- A line of cells, without its end. -/
def lineText (cells : List String) : String := "| " ++ cellsText cells

/-- The lines of a table: the header, the divider and one for each row. -/
def lineTexts (header : List String) (rows : List (List String)) : List String :=
  lineText header :: lineText (header.map fun _ => "---") :: rows.map lineText

@[simp] theorem cellsText_nil : cellsText [] = "" := rfl

@[simp] theorem cellsText_cons (cell : String) (cells : List String) :
    cellsText (cell :: cells) = cell ++ " | " ++ cellsText cells := rfl

theorem line_eq (cells : List String) : line cells = lineText cells ++ "\n" := by
  have hcells : cells.foldr (fun cell rest => cell ++ " | " ++ rest) "\n" =
      cellsText cells ++ "\n" := by
    induction cells with
    | nil => rfl
    | cons cell cells ih =>
      rw [List.foldr_cons, ih, cellsText_cons]
      exact String.append_assoc.symm
  rw [line, hcells, lineText, String.append_assoc]

/-- The text of a table is its lines, each with its end. -/
theorem toList_render (header : List String) (rows : List (List String)) :
    (render header rows).toList =
      (lineTexts header rows).flatMap fun t => t.toList ++ ['\n'] := by
  have hline : ∀ cells : List String, (line cells).toList = (lineText cells).toList ++ ['\n'] := by
    intro cells
    rw [line_eq, String.toList_append]
    rfl
  have hrows : (rows.foldr (fun row rest => line row ++ rest) "").toList =
      (rows.map lineText).flatMap fun t => t.toList ++ ['\n'] := by
    induction rows with
    | nil => rfl
    | cons row rows ih =>
      rw [List.foldr_cons, String.toList_append, ih, hline, List.map_cons, List.flatMap_cons]
  rw [render, divider, String.toList_append, String.toList_append, hline, hline, hrows, lineTexts,
    List.flatMap_cons, List.flatMap_cons, List.append_assoc]

/-- A line begins with its opener. -/
theorem opener_lineText (cells : List String) : "| ".toList <+: (lineText cells).toList := by
  rw [lineText, String.toList_append]
  exact List.prefix_append _ _

/-- A line ends in a space, be it that of the last separator or that of the opener. -/
theorem getLast?_lineText (cells : List String) : (lineText cells).toList.getLast? = some ' ' := by
  have hcells : ∀ c ∈ (cellsText cells).toList.getLast?, c = ' ' := by
    induction cells with
    | nil => nofun
    | cons cell cells ih =>
      intro c hc
      rw [cellsText_cons, String.toList_append, String.toList_append, List.getLast?_append] at hc
      cases hrest : (cellsText cells).toList.getLast? with
      | some last =>
        rw [hrest] at hc
        obtain rfl := Option.some.inj hc
        exact ih last hrest
      | none =>
        rw [hrest, List.getLast?_append] at hc
        exact (Option.some.inj hc).symm
  rw [lineText, String.toList_append, List.getLast?_append]
  cases hlast : (cellsText cells).toList.getLast? with
  | some last => rw [hcells last hlast]; rfl
  | none => rfl

/-- Each line of a table is a line of cells. -/
theorem exists_of_mem_lineTexts {header : List String} {rows : List (List String)} {t : String}
    (ht : t ∈ lineTexts header rows) : ∃ cells, lineText cells = t := by
  rw [lineTexts, List.mem_cons, List.mem_cons, List.mem_map] at ht
  obtain rfl | rfl | ⟨row, -, rfl⟩ := ht
  · exact ⟨_, rfl⟩
  · exact ⟨_, rfl⟩
  · exact ⟨_, rfl⟩

/-- How many line feeds there are in texts. -/
def lineFeeds (texts : List String) : Nat := (texts.map fun t => t.toList.count '\n').sum

@[simp] theorem lineFeeds_nil : lineFeeds [] = 0 := rfl

@[simp] theorem lineFeeds_cons (t : String) (texts : List String) :
    lineFeeds (t :: texts) = t.toList.count '\n' + lineFeeds texts := rfl

@[simp] theorem lineFeeds_append (texts more : List String) :
    lineFeeds (texts ++ more) = lineFeeds texts + lineFeeds more := by
  rw [lineFeeds, List.map_append, List.sum_append, lineFeeds, lineFeeds]

theorem lineFeeds_eq_zero_iff {texts : List String} :
    lineFeeds texts = 0 ↔ ∀ t ∈ texts, '\n' ∉ t.toList := by
  induction texts with
  | nil => simp
  | cons t texts ih =>
    rw [lineFeeds_cons, Nat.add_eq_zero_iff, ih, List.count_eq_zero, List.forall_mem_cons]

/-- The line feeds in a line are those in its cells. -/
theorem count_lineText (cells : List String) :
    (lineText cells).toList.count '\n' = lineFeeds cells := by
  have hcells : (cellsText cells).toList.count '\n' = lineFeeds cells := by
    induction cells with
    | nil => rfl
    | cons cell cells ih =>
      have hseparator : " | ".toList.count '\n' = 0 := by decide
      rw [cellsText_cons, String.toList_append, String.toList_append, List.count_append,
        List.count_append, hseparator, ih, lineFeeds_cons, Nat.add_zero]
  have hopener : "| ".toList.count '\n' = 0 := by decide
  rw [lineText, String.toList_append, List.count_append, hopener, hcells, Nat.zero_add]

/-- The line feeds in the lines of a table are those in its cells. -/
theorem lineFeeds_lineTexts (header : List String) (rows : List (List String)) :
    lineFeeds (lineTexts header rows) = lineFeeds (header ++ rows.flatten) := by
  have hdivider : lineFeeds (header.map fun _ => "---") = 0 := by
    refine lineFeeds_eq_zero_iff.2 fun t ht => ?_
    obtain ⟨_, -, rfl⟩ := List.mem_map.1 ht
    decide
  have hrows : lineFeeds (rows.map lineText) = lineFeeds rows.flatten := by
    induction rows with
    | nil => rfl
    | cons row rows ih =>
      rw [List.map_cons, lineFeeds_cons, ih, count_lineText, List.flatten_cons, lineFeeds_append]
  rw [lineTexts, lineFeeds_cons, lineFeeds_cons, count_lineText, count_lineText, hdivider, hrows,
    lineFeeds_append, Nat.zero_add]

section Render

variable (header : List String) (rows : List (List String))

theorem linesEnd_render : Text.LinesEnd (render header rows).toList := by
  have hlines : ∀ texts : List String,
      Text.LinesEnd (texts.flatMap fun t => t.toList ++ ['\n']) := by
    intro texts
    induction texts with
    | nil => nofun
    | cons t texts ih =>
      intro c hc
      rw [List.flatMap_cons, List.getLast?_append, Option.mem_def, Option.or_eq_some_iff,
        List.getLast?_concat] at hc
      obtain hc | ⟨-, hc⟩ := hc
      · exact ih c hc
      · exact (Option.some.inj hc).symm
  rw [toList_render]
  exact hlines _

/-- **A table has a line for its header, one for the divider, one for each row, and one more for
each line feed in a cell.** -/
theorem length_lines_render :
    (Text.lines (render header rows).toList).length =
      rows.length + 2 + lineFeeds (header ++ rows.flatten) := by
  have hcount : ∀ texts : List String,
      (texts.flatMap fun t => t.toList ++ ['\n']).count '\n' = texts.length + lineFeeds texts := by
    intro texts
    induction texts with
    | nil => rfl
    | cons t texts ih =>
      have hend : ['\n'].count '\n' = 1 := by decide
      rw [List.flatMap_cons, List.count_append, List.count_append, ih, hend, List.length_cons,
        lineFeeds_cons]
      omega
  have hlength : (lineTexts header rows).length = rows.length + 2 := by
    rw [lineTexts, List.length_cons, List.length_cons, List.length_map]
  rw [Text.length_lines (linesEnd_render header rows), toList_render, hcount, hlength,
    lineFeeds_lineTexts]

variable {header rows}

/-- Where no cell holds a line feed, the lines of the text are the lines of the table. -/
theorem lines_render (h : ∀ cell ∈ header ++ rows.flatten, '\n' ∉ cell.toList) :
    Text.lines (render header rows).toList = (lineTexts header rows).map String.toList := by
  have hfeeds : ∀ t ∈ lineTexts header rows, '\n' ∉ t.toList := by
    rwa [← lineFeeds_eq_zero_iff, lineFeeds_lineTexts, lineFeeds_eq_zero_iff]
  have hlast : ∀ t ∈ lineTexts header rows, t.toList.getLast? ≠ some '\r' := by
    intro t ht
    obtain ⟨cells, rfl⟩ := exists_of_mem_lineTexts ht
    rw [getLast?_lineText]
    decide
  rw [toList_render]
  exact Text.lines_flatMap fun t ht => ⟨hfeeds t ht, hlast t ht⟩

/-- **The shape of a table's text**: there are two lines more than rows, and each begins with the
opener, just where no cell holds a line feed. -/
theorem shape_render_iff :
    ((Text.lines (render header rows).toList).length = rows.length + 2 ∧
        ∀ line ∈ Text.lines (render header rows).toList, "| ".toList <+: line) ↔
      ∀ cell ∈ header ++ rows.flatten, '\n' ∉ cell.toList := by
  constructor
  · rintro ⟨hlength, -⟩
    rw [length_lines_render] at hlength
    rw [← lineFeeds_eq_zero_iff]
    omega
  · intro h
    refine ⟨?_, ?_⟩
    · rw [length_lines_render, lineFeeds_eq_zero_iff.2 h, Nat.add_zero]
    · intro line hline
      rw [lines_render h] at hline
      obtain ⟨t, ht, rfl⟩ := List.mem_map.1 hline
      obtain ⟨cells, rfl⟩ := exists_of_mem_lineTexts ht
      exact opener_lineText cells

end Render

end Table

/-! ### From events to the document -/

/-- For a table one text is inserted, which is that of the table and one line feed more, and one
monospaced style covers the text of the table. -/
theorem compile_table_edits (o : Options) {tokens : List BlockToken} {i : Nat}
    {header : List String} {rows : List (List String)}
    (h : tokens[i]? = some (.table header rows)) :
    ∃ c b, compile o tokens = .ok c ∧ c.blocks[i]? = some b ∧
      (c.edits.drop b.first).take (b.stop - b.first) =
        [.insertText (Table.render header rows ++ "\n"),
          .textStyle (.font o.monospaceFont)
            (.ofLength b.offsets.start (Text.utf16Length (Table.render header rows)))] := by
  obtain ⟨c, hcompile, hc⟩ := compile_wellFormed o tokens
  have hi : i < c.blocks.length := by
    rw [hc.length_blocks]
    exact (List.getElem?_eq_some_iff.1 h).1
  have hblock := hc.blocks_in_order i _ _ h (List.getElem?_eq_getElem hi)
  exact ⟨c, c.blocks[i], hcompile, List.getElem?_eq_getElem hi, (congrArg Prod.snd hblock).symm⟩

/-- **The shape of a table, from events to the document.** The events of a table are lexed to one
token. Wherever it is compiled, one text is inserted for it, which is the lines of the table and one
empty line, and one monospaced style covers those lines and no more. There are two lines more than
rows, each with the opener in front, just where no cell holds a line feed. -/
theorem compile_table {source : String} {t : TableTree} (hread : Readable source t.node.events) :
    lex ⟨source, t.node.events⟩ = .ok [.table (t.header source) (t.body source)] ∧
      ∀ (o : Options) (tokens : List BlockToken) (i : Nat),
        tokens[i]? = some (.table (t.header source) (t.body source)) →
        ∃ c b text, compile o tokens = .ok c ∧ c.blocks[i]? = some b ∧
          (c.edits.drop b.first).take (b.stop - b.first) =
            [.insertText (text ++ "\n"),
              .textStyle (.font o.monospaceFont)
                (.ofLength b.offsets.start (Text.utf16Length text))] ∧
          Text.lines (text ++ "\n").toList = Text.lines text.toList ++ [[]] ∧
          (((Text.lines text.toList).length = t.rows.length + 2 ∧
              ∀ line ∈ Text.lines text.toList, "| ".toList <+: line) ↔
            ∀ cell ∈ t.header source ++ (t.body source).flatten, '\n' ∉ cell.toList) := by
  refine ⟨lex_table hread, fun o tokens i htoken => ?_⟩
  obtain ⟨c, b, hcompile, hb, hedits⟩ := compile_table_edits o htoken
  have hrows : t.rows.length = (t.body source).length := (List.length_map _).symm
  refine ⟨c, b, Table.render (t.header source) (t.body source), hcompile, hb, hedits, ?_, ?_⟩
  · rw [String.toList_append, (Table.linesEnd_render _ _).lines_append]
    rfl
  · rw [hrows]
    exact Table.shape_render_iff

/-- The table ``"| a | b |\n|---|---|\n| *x* | `y` |\n"``. -/
def styledTable : TableTree where
  range := ⟨0, 34⟩
  head := ⟨⟨0, 10⟩, [
    ⟨⟨1, 4⟩, [.leaf (.text "a") ⟨2, 3⟩], rfl⟩, ⟨⟨5, 8⟩, [.leaf (.text "b") ⟨6, 7⟩], rfl⟩]⟩
  rows := [⟨⟨20, 34⟩, [
    ⟨⟨21, 26⟩, [.element (.plain .emphasis) ⟨22, 25⟩ [.leaf (.text "x") ⟨23, 24⟩]], rfl⟩,
    ⟨⟨27, 32⟩, [.leaf (.code "y") ⟨28, 31⟩], rfl⟩]⟩]

theorem compile_table_of_styled :
    lex ⟨"| a | b |\n|---|---|\n| *x* | `y` |\n", styledTable.node.events⟩ =
        .ok [.table ["a", "b"] [["x", "`y`"]]] ∧
      ∃ c b text, compile {} [.blank, .table ["a", "b"] [["x", "`y`"]]] = .ok c ∧
        c.blocks[1]? = some b ∧
        (c.edits.drop b.first).take (b.stop - b.first) =
          [.insertText (text ++ "\n"),
            .textStyle (.font "Consolas") (.ofLength b.offsets.start (Text.utf16Length text))] ∧
        (Text.lines text.toList).length = 3 ∧
        ∀ line ∈ Text.lines text.toList, "| ".toList <+: line := by
  have hread : Readable "| a | b |\n|---|---|\n| *x* | `y` |\n" styledTable.node.events := by decide
  obtain ⟨hlex, hcompile⟩ := compile_table hread
  obtain ⟨c, b, text, hc, hb, hedits, -, hshape⟩ :=
    hcompile {} [.blank, .table ["a", "b"] [["x", "`y`"]]] 1 (by decide)
  have hlines := hshape.2 (by decide)
  exact ⟨hlex, c, b, text, hc, hb, hedits, hlines.1, hlines.2⟩

/-- The table ``"| a |\n|---|\n| x&#10;y |\n"``, in which a character reference stands for a line
feed. -/
def lineFeedTable : TableTree where
  range := ⟨0, 24⟩
  head := ⟨⟨0, 6⟩, [⟨⟨1, 4⟩, [.leaf (.text "a") ⟨2, 3⟩], rfl⟩]⟩
  rows := [⟨⟨12, 24⟩, [⟨⟨13, 22⟩,
    [.leaf (.text "x") ⟨14, 15⟩, .leaf (.text "\n") ⟨15, 20⟩, .leaf (.text "y") ⟨20, 21⟩], rfl⟩]⟩]

/-- The one row of this table takes up two lines, and the second has no opener. -/
theorem compile_table_with_line_feed :
    lex ⟨"| a |\n|---|\n| x&#10;y |\n", lineFeedTable.node.events⟩ =
        .ok [.table ["a"] [["x\ny"]]] ∧
      ∃ c, compile {} [.table ["a"] [["x\ny"]]] = .ok c ∧
        c.edits = [.insertText "| a | \n| --- | \n| x\ny | \n\n",
          .textStyle (.font "Consolas") ⟨1, 26⟩] ∧
        Text.lines "| a | \n| --- | \n| x\ny | \n\n".toList =
          ["| a | ".toList, "| --- | ".toList, "| x".toList, "y | ".toList, []] :=
  ⟨rfl, assemble {} [.table ["a"] [["x\ny"]]], compile_eq, by decide, by decide⟩

end MarkdownEdits
