import MarkdownEdits.Proofs.Placement

/-!
# Documents with marks

A document is a list of UTF-16 units, each with the marks put on it so far. Edits are applied one
after the other: an insertion adds units at the end, a style or a bullet marks the units of its
range. Applying the edits of a line adds its runs, each with its own mark (`replay_lineEdits`).
-/

namespace MarkdownEdits

open Text

structure DocumentUnit where
  code : UInt16
  marks : List Mark := []
  deriving DecidableEq, Repr, Inhabited

/-- The unit with one more mark. -/
def DocumentUnit.mark (m : Mark) (u : DocumentUnit) : DocumentUnit :=
  { u with marks := u.marks ++ [m] }

/-- The unit at offset `i` is the one at index `i`. -/
abbrev Document := List DocumentUnit

namespace Document

/-- The units of a text, not marked. -/
def ofText (text : String) : Document := (utf16 text).map fun code => ⟨code, []⟩

/-- Marks the units of a range. -/
def markRange (r : TextRange) (m : Mark) (d : Document) : Document :=
  d.mapIdx fun i u => if r.start ≤ i ∧ i < r.stop then u.mark m else u

@[simp] theorem length_ofText (text : String) : (ofText text).length = utf16Length text := by
  simp [ofText, utf16Length]

@[simp] theorem ofText_empty : ofText "" = [] := rfl

@[simp] theorem ofText_append (s t : String) : ofText (s ++ t) = ofText s ++ ofText t := by
  simp [ofText]

@[simp] theorem length_markRange (r : TextRange) (m : Mark) (d : Document) :
    (d.markRange r m).length = d.length := by
  simp [markRange]

/-- Marking a stretch leaves what is around it. -/
theorem markRange_middle (m : Mark) (pre mid post : Document) :
    markRange (.ofLength pre.length mid.length) m (pre ++ (mid ++ post)) =
      pre ++ (mid.map (DocumentUnit.mark m) ++ post) := by
  refine List.ext_getElem? fun i => ?_
  rw [markRange, List.getElem?_mapIdx, TextRange.start_ofLength, TextRange.stop_ofLength]
  by_cases hpre : i < pre.length
  · rw [List.getElem?_append_left hpre, List.getElem?_append_left hpre]
    simp [Nat.not_le.2 hpre]
  · have hge : pre.length ≤ i := by omega
    rw [List.getElem?_append_right hge, List.getElem?_append_right hge]
    by_cases hmid : i < pre.length + mid.length
    · have hin : i - pre.length < mid.length := by omega
      rw [List.getElem?_append_left hin, List.getElem?_append_left (by simpa using hin),
        List.getElem?_map]
      simp [hge, hmid]
    · have hout : mid.length ≤ i - pre.length := by omega
      rw [List.getElem?_append_right hout, List.getElem?_append_right (by simpa using hout),
        List.length_map]
      simp [hmid]

end Document

/-! ### Applying edits -/

def Edit.apply (d : Document) : Edit → Document
  | .insertText text => d ++ .ofText text
  | .paragraphStyle name r => d.markRange r (.paragraph name)
  | .textStyle style r => d.markRange r (.text style)
  | .listBullet preset r => d.markRange r (.bullet preset)
  | .delete r => d.take r.start ++ d.drop (max r.start r.stop)

/-- The document after edits. -/
def replay (d : Document) (es : List Edit) : Document := es.foldl Edit.apply d

@[simp] theorem replay_nil (d : Document) : replay d [] = d := rfl

@[simp] theorem replay_cons (d : Document) (e : Edit) (es : List Edit) :
    replay d (e :: es) = replay (e.apply d) es := rfl

theorem replay_append (d : Document) (es fs : List Edit) :
    replay d (es ++ fs) = replay (replay d es) fs := List.foldl_append

theorem Mark.apply_edit (m : Mark) (r : TextRange) (d : Document) :
    (m.edit r).apply d = d.markRange r m := by
  cases m <;> rfl

/-! ### Runs in a document -/

/-- The units of a run, each with the run's mark. -/
def Run.units (run : Run) : Document := (utf16 run.text).map fun code => ⟨code, run.mark?.toList⟩

theorem length_units (run : Run) : run.units.length = utf16Length run.text := by
  simp [Run.units, utf16Length]

theorem units_plain (text : String) : Run.units ⟨text, none⟩ = .ofText text := rfl

theorem units_marked (text : String) (m : Mark) :
    Run.units ⟨text, some m⟩ = (Document.ofText text).map (DocumentUnit.mark m) := by
  simp [Run.units, Document.ofText, DocumentUnit.mark]

/-- The marks of a line turn its plain text into its runs. -/
theorem replay_markEdits (d : Document) (runs : List Run) :
    replay (d ++ .ofText (lineText runs)) (markEdits d.length runs) =
      d ++ runs.flatMap Run.units := by
  induction runs generalizing d with
  | nil => simp
  | cons run runs ih =>
    obtain ⟨text, m?⟩ := run
    have hnext := ih (d ++ Run.units ⟨text, m?⟩)
    rw [List.length_append, length_units, List.append_assoc d (Run.units _)] at hnext
    rw [List.flatMap_cons]
    refine Eq.trans ?_ (hnext.trans (List.append_assoc ..))
    rw [lineText_cons, Document.ofText_append]
    cases m? with
    | none => rw [markEdits_plain, units_plain]
    | some m =>
      by_cases ht : utf16Length text = 0
      · obtain rfl : text = "" := utf16Length_eq_zero_iff.1 ht
        simp [markEdits, Run.edit?, Run.units]
      · have hmarked := Document.markRange_middle m d (.ofText text) (.ofText (lineText runs))
        rw [Document.length_ofText] at hmarked
        rw [markEdits_marked ht, replay_cons, Mark.apply_edit, hmarked, units_marked]

theorem replay_lineEdits (d : Document) (runs : List Run) :
    replay d (lineEdits d.length runs) = d ++ runs.flatMap Run.units :=
  replay_markEdits d runs

/-- The units of several lines. -/
def lineUnits (lines : List (List Run)) : Document := lines.flatMap fun line => line.flatMap Run.units

theorem length_flatMap_units (runs : List Run) :
    (runs.flatMap Run.units).length = utf16Length (lineText runs) := by
  induction runs with
  | nil => rfl
  | cons run runs ih =>
    rw [List.flatMap_cons, List.length_append, ih, length_units, lineText_cons, utf16Length_append]

/-- **Lines laid out at the end of a document add their runs.** -/
theorem replay_lowerLines (d : Document) (lines : List (List Run)) :
    replay d (lowerLines ⟨d.length⟩ lines).2 = d ++ lineUnits lines := by
  induction lines generalizing d with
  | nil => simp [lowerLines, lineUnits]
  | cons line lines ih =>
    have hnext := ih (d ++ line.flatMap Run.units)
    rw [List.length_append, length_flatMap_units] at hnext
    rw [lowerLines_cons, replay_append, replay_lineEdits, lineUnits, List.flatMap_cons,
      ← List.append_assoc]
    exact hnext

/-! ### The length of a document -/

/-- Laying out lines inserts and marks, and nothing else. -/
theorem mem_lowerLines {c : Cursor} {lines : List (List Run)} {e : Edit}
    (h : e ∈ (lowerLines c lines).2) :
    (∃ text, e = .insertText text) ∨ ∃ (m : Mark) (r : TextRange), e = m.edit r := by
  have hmarks : ∀ offset runs, e ∈ markEdits offset runs → ∃ (m : Mark) (r : TextRange), e = m.edit r := by
    intro offset runs
    induction runs generalizing offset with
    | nil => simp
    | cons run runs ih =>
      intro he
      rcases List.mem_append.1 he with he | he
      · rw [Option.mem_toList] at he
        unfold Run.edit? at he
        split at he
        · simp at he
        · obtain ⟨m, -, rfl⟩ := Option.map_eq_some_iff.1 he
          exact ⟨m, _, rfl⟩
      · exact ih _ he
  induction lines generalizing c with
  | nil => simp [lowerLines] at h
  | cons line lines ih =>
    rw [lowerLines_cons] at h
    rcases List.mem_append.1 h with h | h
    · rcases List.mem_cons.1 h with rfl | h
      · exact .inl ⟨_, rfl⟩
      · exact .inr (hmarks _ _ h)
    · exact ih h

theorem length_replay {es : List Edit}
    (h : ∀ e ∈ es, (∃ text, e = .insertText text) ∨ ∃ (m : Mark) (r : TextRange), e = m.edit r)
    (d : Document) : (replay d es).length = d.length + insertedLength es := by
  induction es generalizing d with
  | nil => rfl
  | cons e es ih =>
    rw [replay_cons, ih (fun f hf => h f (List.mem_cons_of_mem _ hf)), insertedLength_cons]
    rcases h e List.mem_cons_self with ⟨text, rfl⟩ | ⟨m, r, rfl⟩
    · simp only [Edit.apply, List.length_append, Document.length_ofText, Edit.insertedLength]
      omega
    · rw [Mark.apply_edit, Document.length_markRange, Mark.insertedLength_edit, Nat.zero_add]

end MarkdownEdits
