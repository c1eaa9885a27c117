import MarkdownEdits.Compilation.Draft

/-!
# What a block looks like

A block is rendered as lines, and a line as runs of text that carry at most one mark each. Two
things are said here: which lines a block token has (`BlockToken.lines`), and that lowering a block
is laying out its lines (`lower_eq_lowerLines`). All that is proved of lowering is proved of lines
and runs.
-/

namespace MarkdownEdits

open Text

/-! ### Marks and runs -/

/-- What an edit over a range says about the text in it. -/
inductive Mark
  | paragraph (name : String)
  | text (style : TextStyle)
  | bullet (preset : String)
  deriving DecidableEq, Repr, Inhabited

/-- The edit that puts a mark on a range. -/
def Mark.edit (r : TextRange) : Mark → Edit
  | .paragraph name => .paragraphStyle name r
  | .text style => .textStyle style r
  | .bullet preset => .listBullet preset r

@[simp] theorem Mark.range?_edit (m : Mark) (r : TextRange) : (m.edit r).range? = some r := by
  cases m <;> rfl

@[simp] theorem Mark.insertedLength_edit (m : Mark) (r : TextRange) :
    (m.edit r).insertedLength = 0 := by
  cases m <;> rfl

@[simp] theorem Mark.insertedText?_edit (m : Mark) (r : TextRange) :
    (m.edit r).insertedText? = none := by
  cases m <;> rfl

/-- A piece of a line with the mark that it carries. -/
structure Run where
  text : String
  mark? : Option Mark := none
  deriving DecidableEq, Repr, Inhabited

/-- The run of an inline token: strong, emphasised and linked text is marked as such. -/
def InlineToken.run : InlineToken → Run
  | .text t => ⟨t, none⟩
  | .strong t => ⟨t, some (.text .bold)⟩
  | .emphasis t => ⟨t, some (.text .italic)⟩
  | .link t target => ⟨t, some (.text (.link target))⟩
  | .other source => ⟨source, none⟩

@[simp] theorem InlineToken.text_run (t : InlineToken) : t.run.text = t.rendered := by
  cases t <;> rfl

theorem InlineToken.mark?_run (t : InlineToken) : t.run.mark? = t.style?.map .text := by
  cases t <;> rfl

/-- **The lines of a block.** -/
def BlockToken.lines (o : Options) : BlockToken → List (List Run)
  | .heading text depth => [[⟨text ++ "\n", some (.paragraph ("HEADING_" ++ toString depth))⟩]]
  | .paragraph _ (some (token :: tokens)) => [(token :: tokens).map InlineToken.run ++ [⟨"\n", none⟩]]
  | .paragraph text _ => [[⟨text ++ "\n", none⟩]]
  | .list items ordered => items.map fun item => [⟨item ++ "\n", some (.bullet (o.bulletPreset ordered))⟩]
  | .table header rows =>
    [[⟨Table.render header rows, some (.text (.font o.monospaceFont))⟩, ⟨"\n", none⟩]]
  | .blank => [[⟨"\n", none⟩]]
  | .raw text => if text = "" then [] else [[⟨text, none⟩]]

/-! ### Laying out lines -/

/-- The text of a line. -/
def lineText (runs : List Run) : String := runs.foldr (fun run rest => run.text ++ rest) ""

@[simp] theorem lineText_nil : lineText [] = "" := rfl

@[simp] theorem lineText_cons (run : Run) (runs : List Run) :
    lineText (run :: runs) = run.text ++ lineText runs := rfl

theorem lineText_append (runs more : List Run) :
    lineText (runs ++ more) = lineText runs ++ lineText more := by
  induction runs with
  | nil => simp
  | cons run runs ih => simp [ih, String.append_assoc]

/-- The edit that marks a run whose text starts at `offset`; a run without text has none. -/
def Run.edit? (run : Run) (offset : Nat) : Option Edit :=
  if utf16Length run.text = 0 then none
  else run.mark?.map (Mark.edit (.ofLength offset (utf16Length run.text)))

/-- The edits that mark the runs of a line which starts at `offset`. -/
def markEdits (offset : Nat) : List Run → List Edit
  | [] => []
  | run :: runs => (run.edit? offset).toList ++ markEdits (offset + utf16Length run.text) runs

@[simp] theorem markEdits_nil (offset : Nat) : markEdits offset [] = [] := rfl

/-- A line: its text, then the marks on it. -/
def lineEdits (offset : Nat) (runs : List Run) : List Edit :=
  .insertText (lineText runs) :: markEdits offset runs

/-- Lines from the cursor on. -/
def lowerLines (c : Cursor) : List (List Run) → Cursor × List Edit
  | [] => (c, [])
  | line :: lines =>
    let (last, edits) := lowerLines (c.advanceOver (lineText line)) lines
    (last, lineEdits c.offset line ++ edits)

theorem lowerLines_cons (c : Cursor) (line : List Run) (lines : List (List Run)) :
    lowerLines c (line :: lines) =
      ((lowerLines (c.advanceOver (lineText line)) lines).1,
        lineEdits c.offset line ++ (lowerLines (c.advanceOver (lineText line)) lines).2) := rfl

theorem lowerLines_append (c : Cursor) (lines more : List (List Run)) :
    lowerLines c (lines ++ more) =
      ((lowerLines (lowerLines c lines).1 more).1,
        (lowerLines c lines).2 ++ (lowerLines (lowerLines c lines).1 more).2) := by
  induction lines generalizing c with
  | nil => rfl
  | cons line lines ih =>
    rw [List.cons_append, lowerLines_cons, ih, lowerLines_cons]
    simp only [List.append_assoc]

/-! ### Lowering a block is laying out its lines -/

theorem markEdits_append (offset : Nat) (runs more : List Run) :
    markEdits offset (runs ++ more) =
      markEdits offset runs ++ markEdits (offset + utf16Length (lineText runs)) more := by
  induction runs generalizing offset with
  | nil => simp [markEdits]
  | cons run runs ih =>
    rw [List.cons_append, markEdits, ih, markEdits, lineText_cons, utf16Length_append,
      List.append_assoc, Nat.add_assoc]

theorem lineText_map_run (tokens : List InlineToken) :
    lineText (tokens.map InlineToken.run) = InlineToken.renderAll tokens := by
  induction tokens with
  | nil => rfl
  | cons token tokens ih => simp [ih]

/-- The spans of an inline run, moved to where its text stands, are the marks of its runs. -/
theorem map_spansFrom (origin offset : Nat) (tokens : List InlineToken) :
    (spansFrom offset tokens).map (fun s => Edit.textStyle s.style (s.range.offsetBy origin)) =
      markEdits (offset + origin) (tokens.map InlineToken.run) := by
  induction tokens generalizing offset with
  | nil => rfl
  | cons token tokens ih =>
    have htail : offset + utf16Length token.rendered + origin =
        offset + origin + utf16Length token.run.text := by
      rw [InlineToken.text_run]; omega
    have hhead : (token.span? offset).toList.map
        (fun s => Edit.textStyle s.style (s.range.offsetBy origin)) =
        (token.run.edit? (offset + origin)).toList := by
      unfold InlineToken.span? Run.edit?
      rw [InlineToken.text_run, InlineToken.mark?_run]
      by_cases hl : utf16Length token.rendered = 0
      · simp [hl]
      · simp only [hl, if_false]
        cases token.style? with
        | none => rfl
        | some style =>
          simp [Mark.edit, TextRange.offsetBy, TextRange.ofLength, Nat.add_right_comm]
    rw [spansFrom, List.map_append, hhead, ih, htail]
    rfl

/-- The text of a line that ends in a line feed is not empty. -/
theorem utf16Length_line (text : String) : utf16Length (text ++ "\n") ≠ 0 := by
  have hbreak : utf16Length "\n" = 1 := by decide
  rw [utf16Length_append, hbreak]
  omega

theorem markEdits_marked {text : String} (h : utf16Length text ≠ 0) (offset : Nat) (m : Mark)
    (runs : List Run) :
    markEdits offset (⟨text, some m⟩ :: runs) =
      m.edit (.ofLength offset (utf16Length text)) :: markEdits (offset + utf16Length text) runs := by
  simp [markEdits, Run.edit?, h]

theorem markEdits_plain (offset : Nat) (text : String) (runs : List Run) :
    markEdits offset (⟨text, none⟩ :: runs) = markEdits (offset + utf16Length text) runs := by
  simp [markEdits, Run.edit?]

theorem lowerItems_eq_lowerLines (preset : String) (c : Cursor) (items : List String) :
    lowerItems preset c items =
      lowerLines c (items.map fun item => [⟨item ++ "\n", some (.bullet preset)⟩]) := by
  induction items generalizing c with
  | nil => rfl
  | cons item items ih =>
    have hline : lineText [⟨item ++ "\n", some (.bullet preset)⟩] = item ++ "\n" := by simp
    rw [List.map_cons, lowerLines_cons, lowerItems, ih, lineEdits,
      markEdits_marked (utf16Length_line item), hline]
    rfl

/-- The text of a table is not empty. -/
theorem utf16Length_render (header : List String) (rows : List (List String)) :
    utf16Length (Table.render header rows) ≠ 0 := by
  have hopener : utf16Length "| " = 2 := by decide
  simp only [Table.render, Table.line, utf16Length_append, hopener]
  omega

/-- **Lowering a block is laying out its lines.** -/
theorem lower_eq_lowerLines (o : Options) (c : Cursor) (token : BlockToken) :
    token.lower o c = lowerLines c (token.lines o) := by
  cases token with
  | heading text depth =>
    simp only [BlockToken.lower, BlockToken.lines, lowerLines, lineEdits,
      markEdits_marked (utf16Length_line text), lineText_cons, lineText_nil, String.append_empty]
    rfl
  | paragraph text inline =>
    rcases inline with _ | _ | ⟨token, tokens⟩
    · simp [BlockToken.lower, BlockToken.lines, lowerLines, lineEdits, markEdits_plain]
    · simp [BlockToken.lower, BlockToken.lines, lowerLines, lineEdits, markEdits_plain]
    · have hmarks := map_spansFrom c.offset 0 (token :: tokens)
      rw [Nat.zero_add] at hmarks
      simp only [BlockToken.lower, BlockToken.lines, compose, lowerLines, lineEdits,
        lineText_append, lineText_map_run, markEdits_append, hmarks, markEdits_plain, markEdits_nil,
        lineText_cons, lineText_nil, String.append_empty, List.append_nil]
  | list items ordered => exact lowerItems_eq_lowerLines _ c items
  | table header rows =>
    simp only [BlockToken.lower, BlockToken.lines, lowerLines, lineEdits,
      markEdits_marked (utf16Length_render header rows), markEdits_plain, markEdits_nil, lineText_cons,
      lineText_nil, String.append_empty, List.append_nil]
    rfl
  | blank => simp [BlockToken.lower, BlockToken.lines, lowerLines, lineEdits, markEdits_plain]
  | raw text =>
    by_cases h : text = ""
    · simp [BlockToken.lower, BlockToken.lines, lowerLines, h]
    · simp [BlockToken.lower, BlockToken.lines, lowerLines, lineEdits, markEdits_plain, h]

end MarkdownEdits
