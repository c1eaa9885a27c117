import MarkdownEdits.Proofs.Layout

/-!
# Empty lines in gaps

A blank token is to stand between two nodes whose gap has a blank line. The lexer counts line feeds
in its stead. The two agree where nothing but white space is in the gap and every line end holds a
line feed; text that makes no event, and carriage returns that stand alone, set them apart.
-/

namespace MarkdownEdits

namespace Text

/-! ### Blank lines -/

/-- The pieces of a text between its line ends: line feeds, carriage returns, and pairs of a
carriage return and a line feed. -/
def linePieces : List Char → List (List Char)
  | [] => [[]]
  | '\r' :: '\n' :: rest => [] :: linePieces rest
  | c :: rest =>
    if isLineBreak c then [] :: linePieces rest
    else match linePieces rest with
      | [] => [[c]]
      | piece :: more => (c :: piece) :: more

/-- Whether one of the lines that lie wholly in a text is blank. The first piece ends a line that
begins before the text, and the last one begins a line that ends behind it. -/
def hasBlankLine (cs : List Char) : Bool :=
  (linePieces cs).tail.dropLast.any fun line => line.all isBlank

/-- Every carriage return stands before a line feed. -/
def noLoneReturn : List Char → Bool
  | [] => true
  | '\r' :: '\n' :: rest => noLoneReturn rest
  | c :: rest => c != '\r' && noLoneReturn rest

theorem linePieces_ne_nil (cs : List Char) : linePieces cs ≠ [] := by
  fun_cases linePieces cs <;> simp_all

theorem length_linePieces {cs : List Char} (h : noLoneReturn cs = true) :
    (linePieces cs).length = cs.count '\n' + 1 := by
  fun_induction linePieces cs with
  | case1 => rfl
  | case2 rest ih =>
    rw [noLoneReturn] at h
    rw [List.length_cons, ih h, List.count_cons_of_ne (by decide), List.count_cons_self]
  | case3 c rest hpair hbreak ih =>
    rw [noLoneReturn] at h
    · obtain ⟨hne, hrest⟩ := Bool.and_eq_true_iff.1 h
      have hc : c = '\n' := by
        simp only [isLineBreak, Bool.or_eq_true, beq_iff_eq] at hbreak
        simp only [bne_iff_ne, ne_eq] at hne
        exact hbreak.resolve_right hne
      rw [List.length_cons, ih hrest, hc, List.count_cons_self]
    · exact hpair
  | case4 c rest hpair hbreak hnil ih => exact absurd hnil (linePieces_ne_nil rest)
  | case5 c rest hpair hbreak piece more hpieces ih =>
    rw [noLoneReturn] at h
    · obtain ⟨-, hrest⟩ := Bool.and_eq_true_iff.1 h
      have hc : c ≠ '\n' := by
        rintro rfl
        exact hbreak rfl
      rw [hpieces] at ih
      rw [List.count_cons_of_ne hc, ← ih hrest]
      rfl
    · exact hpair

theorem all_linePieces {p : Char → Bool} {cs : List Char} (h : cs.all p = true) :
    ∀ piece ∈ linePieces cs, piece.all p = true := by
  fun_induction linePieces cs with
  | case1 => simp
  | case2 rest ih =>
    simp only [List.all_cons, Bool.and_eq_true] at h
    exact List.forall_mem_cons.2 ⟨rfl, ih h.2.2⟩
  | case3 c rest hpair hbreak ih =>
    simp only [List.all_cons, Bool.and_eq_true] at h
    exact List.forall_mem_cons.2 ⟨rfl, ih h.2⟩
  | case4 c rest hpair hbreak hnil ih => exact absurd hnil (linePieces_ne_nil rest)
  | case5 c rest hpair hbreak piece more hpieces ih =>
    simp only [List.all_cons, Bool.and_eq_true] at h
    rw [hpieces] at ih
    obtain ⟨hpiece, hmore⟩ := List.forall_mem_cons.1 (ih h.2)
    refine List.forall_mem_cons.2 ⟨?_, hmore⟩
    rw [List.all_cons, h.1, hpiece]
    rfl

/-- White space has a blank line as soon as it has two line ends. -/
theorem hasBlankLine_of_all_isBlank {cs : List Char} (h : cs.all isBlank = true) :
    hasBlankLine cs = decide (3 ≤ (linePieces cs).length) := by
  have hall := all_linePieces h
  unfold hasBlankLine
  rcases hpieces : linePieces cs with _ | ⟨first, _ | ⟨second, _ | ⟨third, more⟩⟩⟩
  · rfl
  · rfl
  · rfl
  · have hsecond : second.all isBlank = true := hall second (by simp [hpieces])
    simp [hsecond]

/-- Two line feeds are in the text just where a blank line is. -/
def LineFeedsTell (cs : List Char) : Prop := hasBlankLine cs = true ↔ 2 ≤ cs.count '\n'

instance (cs : List Char) : Decidable (LineFeedsTell cs) := by
  unfold LineFeedsTell
  infer_instance

/-- The line feeds of white space tell whether it has a blank line, if no carriage return is alone. -/
theorem lineFeedsTell_of_all_isBlank {cs : List Char} (h : cs.all isBlank = true)
    (hreturn : noLoneReturn cs = true) : LineFeedsTell cs := by
  rw [LineFeedsTell, hasBlankLine_of_all_isBlank h, length_linePieces hreturn, decide_eq_true_iff]
  omega

end Text

/-! ### The gaps of a document -/

/-- The gaps between each two nodes that follow each other. -/
def gaps (source : String) (nodes : List Node) : List (List Char) :=
  nodes.zipWith (fun n m => Text.gap source n.range.stop m.range.start) nodes.tail

/-- The layout in which a blank token stands in the gaps that pass a test. -/
def layoutBy (source : String) (test : List Char → Bool) (groups : List (Node × BlockToken)) :
    List BlockToken :=
  layout (fun lastEnd start => test (Text.gap source lastEnd start)) none groups

section LayoutBy

variable {source : String} {p q : List Char → Bool}

/-- A blank token is not the token of a node, so that two layouts agree only gap by gap. -/
theorem layout_eq_iff {n : Node} {groups : List (Node × BlockToken)}
    (h : ∀ g ∈ groups, g.2 ≠ .blank) :
    layout (fun e s => p (Text.gap source e s)) (some n.range.stop) groups =
        layout (fun e s => q (Text.gap source e s)) (some n.range.stop) groups ↔
      ∀ cs ∈ gaps source (n :: groups.map Prod.fst), p cs = q cs := by
  induction groups generalizing n with
  | nil => simp [layout, gaps]
  | cons g groups ih =>
    obtain ⟨m, token⟩ := g
    obtain ⟨hne, hrest⟩ := List.forall_mem_cons.1 h
    have hgaps : gaps source (n :: m :: groups.map Prod.fst) =
        Text.gap source n.range.stop m.range.start :: gaps source (m :: groups.map Prod.fst) := rfl
    rw [List.map_cons, hgaps, List.forall_mem_cons, ← ih hrest]
    simp only [layout, separator]
    by_cases hp : p (Text.gap source n.range.stop m.range.start) = true <;>
      by_cases hq : q (Text.gap source n.range.stop m.range.start) = true
    · simp [hp, hq]
    · simp [hp, hq, Ne.symm hne]
    · simp [hp, hq, hne]
    · simp [hp, hq]

theorem layoutBy_eq_iff {groups : List (Node × BlockToken)} (h : ∀ g ∈ groups, g.2 ≠ .blank) :
    layoutBy source p groups = layoutBy source q groups ↔
      ∀ cs ∈ gaps source (groups.map Prod.fst), p cs = q cs := by
  cases groups with
  | nil => simp [layoutBy, layout, gaps]
  | cons g groups =>
    have hrest := (List.forall_mem_cons.1 h).2
    rw [List.map_cons, ← layout_eq_iff hrest]
    simp [layoutBy, layout, separator]

end LayoutBy

/-- **A document has its blank tokens at its blank lines just where the line feeds of each gap tell
of one.** Each node becomes a token of its own, which is not blank. Between two of them stands at
most one blank token, and it stands where the gap has two line feeds. So a document is laid out by
its blank lines if and only if every gap has two line feeds just where it has a blank line, and this
is so if all gaps are white space without a carriage return that stands alone. -/
theorem lex_blank_lines {source : String} {nodes : List Node} (horder : InOrder nodes)
    (hread : Readable source (Node.eventsAll nodes)) :
    ∃ groups : List (Node × BlockToken), groups.map Prod.fst = nodes ∧
      (∀ g ∈ groups, lex ⟨source, g.1.events⟩ = .ok [g.2] ∧ g.2 ≠ .blank) ∧
      lex ⟨source, Node.eventsAll nodes⟩ =
        .ok (layoutBy source (fun cs => 2 ≤ cs.count '\n') groups) ∧
      (lex ⟨source, Node.eventsAll nodes⟩ = .ok (layoutBy source Text.hasBlankLine groups) ↔
        ∀ cs ∈ gaps source nodes, Text.LineFeedsTell cs) ∧
      ((∀ cs ∈ gaps source nodes, cs.all Text.isBlank ∧ Text.noLoneReturn cs) →
        lex ⟨source, Node.eventsAll nodes⟩ = .ok (layoutBy source Text.hasBlankLine groups)) := by
  obtain ⟨groups, rfl, htokens, hlayout⟩ := lex_layout horder hread
  have hlex : lex ⟨source, Node.eventsAll (groups.map Prod.fst)⟩ =
      .ok (layoutBy source (fun cs => 2 ≤ cs.count '\n') groups) := hlayout
  have hne : ∀ g ∈ groups, g.2 ≠ .blank := fun g hg => (htokens g hg).2
  have hiff : lex ⟨source, Node.eventsAll (groups.map Prod.fst)⟩ =
        .ok (layoutBy source Text.hasBlankLine groups) ↔
      ∀ cs ∈ gaps source (groups.map Prod.fst), Text.LineFeedsTell cs := by
    rw [hlex, Except.ok.injEq, eq_comm]
    refine (layoutBy_eq_iff hne).trans (forall₂_congr fun cs _ => ?_)
    rw [Text.LineFeedsTell, Bool.eq_iff_iff, decide_eq_true_iff]
  refine ⟨groups, rfl, htokens, hlex, hiff, fun hblank => hiff.2 fun cs hcs => ?_⟩
  obtain ⟨hall, hreturn⟩ := hblank cs hcs
  exact Text.lineFeedsTell_of_all_isBlank hall hreturn

/-- A heading in the first four bytes and a paragraph of two bytes at `start`. -/
def headingThenParagraph (start : Nat) : List Node :=
  [.element (.heading 1) ⟨0, 4⟩ [.leaf (.text "a") ⟨2, 3⟩],
    .element (.plain .paragraph) ⟨start, start + 2⟩ [.leaf (.text "b") ⟨start, start + 1⟩]]

theorem lex_blank_lines_between_heading_and_paragraph :
    InOrder (headingThenParagraph 7) ∧
    Readable "# a\n \t\nb\n" (Node.eventsAll (headingThenParagraph 7)) ∧
    ∃ groups, groups.map Prod.fst = headingThenParagraph 7 ∧
      lex ⟨"# a\n \t\nb\n", Node.eventsAll (headingThenParagraph 7)⟩ =
        .ok (layoutBy "# a\n \t\nb\n" Text.hasBlankLine groups) ∧
      layoutBy "# a\n \t\nb\n" Text.hasBlankLine groups =
        [.heading "a" 1, .blank, .paragraph "b" (some [.text "b"])] := by
  have horder : InOrder (headingThenParagraph 7) := by decide
  have hread : Readable "# a\n \t\nb\n" (Node.eventsAll (headingThenParagraph 7)) := by decide
  obtain ⟨groups, hgroups, -, -, -, hblank⟩ := lex_blank_lines horder hread
  have hlex := hblank (by decide)
  refine ⟨horder, hread, groups, hgroups, hlex, ?_⟩
  exact (Except.ok.inj hlex).symm

/-- A link definition makes no event. It ends a line, and the line feeds around it are counted,
though no line of the gap is blank. -/
theorem lex_link_definition_in_gap :
    InOrder (headingThenParagraph 12) ∧
    Readable "# a\n[x]: /u\nb\n" (Node.eventsAll (headingThenParagraph 12)) ∧
    gaps "# a\n[x]: /u\nb\n" (headingThenParagraph 12) = ["\n[x]: /u\n".toList] ∧
    Text.hasBlankLine "\n[x]: /u\n".toList = false ∧
    lex ⟨"# a\n[x]: /u\nb\n", Node.eventsAll (headingThenParagraph 12)⟩ =
      .ok [.heading "a" 1, .blank, .paragraph "b" (some [.text "b"])] :=
  ⟨by decide, by decide, by decide, by decide, rfl⟩

/-- Two carriage returns end a blank line, and the line feeds do not tell. -/
example : Text.hasBlankLine "\r\r".toList = true ∧
    lex ⟨"# a\r\rb\n", Node.eventsAll (headingThenParagraph 5)⟩ =
      .ok [.heading "a" 1, .paragraph "b" (some [.text "b"])] :=
  ⟨by decide, rfl⟩

end MarkdownEdits
