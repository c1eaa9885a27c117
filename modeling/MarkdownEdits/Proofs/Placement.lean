import MarkdownEdits.Proofs.Rendering

/-!
# Where edits fall

Edits are *placed* when every insertion brings text, and every range is not empty, starts behind the
ranges before it and ends in text that exists by then. Lines are laid out so, and placed edits
behind placed edits are placed: one induction over lines gives all that a batch has to keep.
-/

namespace MarkdownEdits

open Text

/-! ### Placed edits -/

/-- The edits are placed, in a document whose text ends at `stop` and whose last range ends at
`low`. -/
def Placed : Nat → Nat → List Edit → Prop
  | _, _, [] => True
  | low, stop, e :: es =>
    (∀ text, e.insertedText? = some text → text ≠ "") ∧
    (∀ r, e.range? = some r → low ≤ r.start ∧ r.start < r.stop ∧ r.stop ≤ stop) ∧
    Placed ((e.range?.map TextRange.stop).getD low) (stop + e.insertedLength) es

theorem placed_insertText {low stop : Nat} {text : String} {es : List Edit} :
    Placed low stop (.insertText text :: es) ↔
      text ≠ "" ∧ Placed low (stop + utf16Length text) es := by
  simp [Placed, Edit.insertedText?, Edit.range?, Edit.insertedLength]

theorem placed_mark {low stop : Nat} {m : Mark} {r : TextRange} {es : List Edit} :
    Placed low stop (m.edit r :: es) ↔
      (low ≤ r.start ∧ r.start < r.stop ∧ r.stop ≤ stop) ∧ Placed r.stop stop es := by
  simp [Placed]

/-- The end of the last range after an edit. -/
theorem lastRange_le {low stop : Nat} {e : Edit} (hl : low ≤ stop)
    (h : ∀ r, e.range? = some r → low ≤ r.start ∧ r.start < r.stop ∧ r.stop ≤ stop) :
    low ≤ (e.range?.map TextRange.stop).getD low ∧
      (e.range?.map TextRange.stop).getD low ≤ stop := by
  cases hr : e.range? with
  | none => simpa using hl
  | some r =>
    obtain ⟨h1, h2, h3⟩ := h r hr
    simp only [Option.map_some, Option.getD_some]
    omega

theorem Placed.mono {low low' stop : Nat} {es : List Edit} (hl : low' ≤ low)
    (h : Placed low stop es) : Placed low' stop es := by
  induction es generalizing low low' stop with
  | nil => trivial
  | cons e es ih =>
    obtain ⟨h1, h2, h3⟩ := h
    refine ⟨h1, fun r hr => ?_, ?_⟩
    · obtain ⟨a, b, c⟩ := h2 r hr
      exact ⟨Nat.le_trans hl a, b, c⟩
    · cases hr : e.range? with
      | none =>
        rw [hr] at h3
        exact ih hl h3
      | some r =>
        rw [hr] at h3
        exact h3

/-- **Placed edits behind placed edits are placed.** -/
theorem Placed.append {low stop : Nat} {es fs : List Edit} (hl : low ≤ stop)
    (he : Placed low stop es)
    (hf : Placed (stop + insertedLength es) (stop + insertedLength es) fs) :
    Placed low stop (es ++ fs) := by
  induction es generalizing low stop with
  | nil => exact hf.mono hl
  | cons e es ih =>
    obtain ⟨h1, h2, h3⟩ := he
    have hlast := (lastRange_le hl h2).2
    rw [insertedLength_cons, ← Nat.add_assoc] at hf
    exact ⟨h1, h2, ih (by omega) h3 hf⟩

/-! ### What placed edits keep -/

section Placed

variable {low stop : Nat} {es : List Edit}

theorem Placed.insertion (h : Placed low stop es) {text : String}
    (ht : Edit.insertText text ∈ es) : text ≠ "" := by
  induction es generalizing low stop with
  | nil => simp at ht
  | cons e es ih =>
    obtain ⟨h1, -, h3⟩ := h
    rcases List.mem_cons.1 ht with rfl | ht
    · exact h1 text rfl
    · exact ih h3 ht

/-- The range of the edit at `k` lies in the text that the edits before it have left. -/
theorem Placed.range (h : Placed low stop es) (hl : low ≤ stop) {k : Nat} {e : Edit}
    {r : TextRange} (hk : es[k]? = some e) (hr : e.range? = some r) :
    low ≤ r.start ∧ r.start < r.stop ∧ r.stop ≤ stop + insertedLength (es.take k) := by
  induction es generalizing low stop k with
  | nil => simp at hk
  | cons f es ih =>
    obtain ⟨-, h2, h3⟩ := h
    cases k with
    | zero =>
      obtain rfl : f = e := by simpa using hk
      simpa using h2 r hr
    | succ k =>
      obtain ⟨ha, hb⟩ := lastRange_le hl h2
      obtain ⟨h4, h5, h6⟩ := ih h3 (by omega) (by simpa using hk)
      rw [List.take_succ_cons, insertedLength_cons]
      omega

theorem Placed.le_start (h : Placed low stop es) (hl : low ≤ stop) {r : TextRange}
    (hr : r ∈ es.filterMap Edit.range?) : low ≤ r.start := by
  obtain ⟨e, he, her⟩ := List.mem_filterMap.1 hr
  obtain ⟨k, hk⟩ := List.mem_iff_getElem?.1 he
  exact (h.range hl hk her).1

theorem Placed.increasing (h : Placed low stop es) (hl : low ≤ stop) :
    (es.filterMap Edit.range?).Pairwise fun r s => r.stop ≤ s.start := by
  induction es generalizing low stop with
  | nil => exact List.Pairwise.nil
  | cons e es ih =>
    obtain ⟨-, h2, h3⟩ := h
    have hlast := (lastRange_le hl h2).2
    cases hr : e.range? with
    | none =>
      rw [List.filterMap_cons_none hr]
      exact ih h3 (by omega)
    | some r =>
      rw [hr] at h3 hlast
      rw [List.filterMap_cons_some hr, List.pairwise_cons]
      exact ⟨fun s hs => h3.le_start (Nat.le_add_right_of_le hlast) hs,
        ih h3 (Nat.le_add_right_of_le hlast)⟩

end Placed

/-! ### Lines are placed -/

theorem insertedLength_markEdits (offset : Nat) (runs : List Run) :
    insertedLength (markEdits offset runs) = 0 := by
  induction runs generalizing offset with
  | nil => rfl
  | cons run runs ih =>
    obtain ⟨text, m⟩ := run
    by_cases hl : utf16Length text = 0
    · simp [markEdits, Run.edit?, hl, ih]
    · cases m with
      | none => rw [markEdits_plain, ih]
      | some m => rw [markEdits_marked hl, insertedLength_cons, ih, Mark.insertedLength_edit]

theorem insertedLength_lineEdits (offset : Nat) (runs : List Run) :
    insertedLength (lineEdits offset runs) = utf16Length (lineText runs) := by
  rw [lineEdits, insertedLength_cons, insertedLength_markEdits]
  rfl

/-- The cursor moves by what is inserted. -/
theorem offset_lowerLines (c : Cursor) (lines : List (List Run)) :
    (lowerLines c lines).1.offset = c.offset + insertedLength (lowerLines c lines).2 := by
  induction lines generalizing c with
  | nil => rfl
  | cons line lines ih =>
    rw [lowerLines_cons, insertedLength_append, insertedLength_lineEdits, ih]
    simp only [Cursor.advanceOver, Cursor.advance]
    omega

theorem placed_markEdits {low stop offset : Nat} {runs : List Run} (hl : low ≤ offset)
    (hs : offset + utf16Length (lineText runs) ≤ stop) :
    Placed low stop (markEdits offset runs) := by
  induction runs generalizing low offset with
  | nil => trivial
  | cons run runs ih =>
    obtain ⟨text, m⟩ := run
    simp only [lineText_cons, utf16Length_append] at hs
    have hrest : ∀ low' ≤ offset + utf16Length text,
        Placed low' stop (markEdits (offset + utf16Length text) runs) :=
      fun low' h => ih h (by omega)
    by_cases ht : utf16Length text = 0
    · have := hrest low (by omega)
      simpa [markEdits, Run.edit?, ht] using this
    · cases m with
      | none =>
        rw [markEdits_plain]
        exact hrest low (by omega)
      | some m =>
        rw [markEdits_marked ht, placed_mark]
        simp only [TextRange.start_ofLength, TextRange.stop_ofLength]
        exact ⟨by omega, hrest _ (Nat.le_refl _)⟩

theorem placed_lineEdits {offset : Nat} {runs : List Run} (h : lineText runs ≠ "") :
    Placed offset offset (lineEdits offset runs) :=
  placed_insertText.2 ⟨h, placed_markEdits (Nat.le_refl _) (Nat.le_refl _)⟩

theorem placed_lowerLines {c : Cursor} {lines : List (List Run)}
    (h : ∀ line ∈ lines, lineText line ≠ "") :
    Placed c.offset c.offset (lowerLines c lines).2 := by
  induction lines generalizing c with
  | nil => trivial
  | cons line lines ih =>
    have htail := ih (c := c.advanceOver (lineText line)) fun l hl => h l (List.mem_cons_of_mem _ hl)
    rw [lowerLines_cons]
    refine (placed_lineEdits (h line List.mem_cons_self)).append (Nat.le_refl _) ?_
    rw [insertedLength_lineEdits]
    exact htail

/-! ### Blocks are placed -/

/-- No line of a block is empty. -/
theorem lineText_lines_ne_empty {o : Options} {token : BlockToken} {line : List Run}
    (h : line ∈ token.lines o) : lineText line ≠ "" := by
  rw [Ne, ← utf16Length_eq_zero_iff]
  cases token with
  | heading text depth =>
    obtain rfl : line = _ := by simpa [BlockToken.lines] using h
    simpa using utf16Length_line text
  | paragraph text inline =>
    rcases inline with _ | _ | ⟨token, tokens⟩
    · obtain rfl : line = _ := by simpa [BlockToken.lines] using h
      simpa using utf16Length_line text
    · obtain rfl : line = _ := by simpa [BlockToken.lines] using h
      simpa using utf16Length_line text
    · obtain rfl : line = _ := by simpa only [BlockToken.lines, List.mem_singleton] using h
      rw [lineText_append, lineText_map_run]
      exact utf16Length_line _
  | list items ordered =>
    obtain ⟨item, -, rfl⟩ := List.mem_map.1 h
    simpa using utf16Length_line item
  | table header rows =>
    obtain rfl : line = _ := by simpa [BlockToken.lines] using h
    simpa using utf16Length_line (Table.render header rows)
  | blank =>
    obtain rfl : line = _ := by simpa [BlockToken.lines] using h
    decide
  | raw text =>
    by_cases ht : text = ""
    · simp [BlockToken.lines, ht] at h
    · obtain rfl : line = _ := by simpa [BlockToken.lines, ht] using h
      simpa [utf16Length_eq_zero_iff] using ht

theorem offset_lower (o : Options) (c : Cursor) (token : BlockToken) :
    (token.lower o c).1.offset = c.offset + insertedLength (token.lower o c).2 := by
  rw [lower_eq_lowerLines]
  exact offset_lowerLines c _

theorem placed_lower (o : Options) (c : Cursor) (token : BlockToken) :
    Placed c.offset c.offset (token.lower o c).2 := by
  rw [lower_eq_lowerLines]
  exact placed_lowerLines fun _ => lineText_lines_ne_empty

/-- A block that adds edits adds text first. -/
theorem lower_insertion_first {o : Options} {c : Cursor} {token : BlockToken}
    (h : (token.lower o c).2 ≠ []) : ∃ text, (token.lower o c).2[0]? = some (.insertText text) := by
  rw [lower_eq_lowerLines] at h ⊢
  cases hl : token.lines o with
  | nil =>
    rw [hl] at h
    exact absurd rfl h
  | cons line lines => exact ⟨lineText line, by rw [lowerLines_cons]; rfl⟩

end MarkdownEdits
