import MarkdownEdits.Event.Block

/-!
# Slices of a source text

A range has a slice where both of its ends lie between two characters. The slice is what stands
between the characters before the range and those after it.
-/

namespace MarkdownEdits

namespace Text

/-! ### Bytes of a list of characters -/

@[simp] theorem byteLength_nil : byteLength [] = 0 := rfl

@[simp] theorem byteLength_cons (c : Char) (cs : List Char) :
    byteLength (c :: cs) = c.utf8Size + byteLength cs := rfl

@[simp] theorem byteLength_append (cs ds : List Char) :
    byteLength (cs ++ ds) = byteLength cs + byteLength ds := by
  induction cs with
  | nil => exact (Nat.zero_add _).symm
  | cons c cs ih => rw [List.cons_append, byteLength_cons, ih, byteLength_cons, Nat.add_assoc]

theorem eq_nil_of_byteLength_eq_zero {cs : List Char} (h : byteLength cs = 0) : cs = [] := by
  cases cs with
  | nil => rfl
  | cons c cs =>
    have hc := c.utf8Size_pos
    rw [byteLength_cons] at h
    omega

theorem takeBytes?_byteLength_append (pre post : List Char) :
    takeBytes? (byteLength pre) (pre ++ post) = some pre := by
  induction pre with
  | nil => simp [takeBytes?]
  | cons c pre ih =>
    have hc := c.utf8Size_pos
    obtain ⟨k, hk⟩ : ∃ k, byteLength (c :: pre) = k + 1 :=
      ⟨byteLength (c :: pre) - 1, by rw [byteLength_cons]; omega⟩
    rw [byteLength_cons] at hk
    have hrest : k + 1 - c.utf8Size = byteLength pre := by omega
    rw [byteLength_cons, hk, List.cons_append, takeBytes?, if_pos (by omega), hrest, ih]
    rfl

theorem dropBytes?_byteLength_append (pre post : List Char) :
    dropBytes? (byteLength pre) (pre ++ post) = some post := by
  induction pre with
  | nil => simp [dropBytes?]
  | cons c pre ih =>
    have hc := c.utf8Size_pos
    obtain ⟨k, hk⟩ : ∃ k, byteLength (c :: pre) = k + 1 :=
      ⟨byteLength (c :: pre) - 1, by rw [byteLength_cons]; omega⟩
    rw [byteLength_cons] at hk
    have hrest : k + 1 - c.utf8Size = byteLength pre := by omega
    rw [byteLength_cons, hk, List.cons_append, dropBytes?, if_pos (by omega), hrest, ih]

theorem takeBytes?_eq_some {n : Nat} {cs pre : List Char} (h : takeBytes? n cs = some pre) :
    ∃ post, cs = pre ++ post ∧ byteLength pre = n := by
  fun_induction takeBytes? n cs generalizing pre with
  | case1 cs =>
    cases h
    exact ⟨cs, rfl, rfl⟩
  | case2 => cases h
  | case3 n c cs hle ih =>
    obtain ⟨rest, hrest, rfl⟩ := Option.map_eq_some_iff.1 h
    obtain ⟨post, rfl, hlength⟩ := ih hrest
    refine ⟨post, rfl, ?_⟩
    rw [byteLength_cons]
    omega
  | case4 => cases h

theorem dropBytes?_eq_some {n : Nat} {cs post : List Char} (h : dropBytes? n cs = some post) :
    ∃ pre, cs = pre ++ post ∧ byteLength pre = n := by
  fun_induction dropBytes? n cs with
  | case1 cs =>
    cases h
    exact ⟨[], rfl, rfl⟩
  | case2 => cases h
  | case3 n c cs hle ih =>
    obtain ⟨pre, rfl, hlength⟩ := ih h
    refine ⟨c :: pre, rfl, ?_⟩
    rw [byteLength_cons]
    omega
  | case4 => cases h

/-! ### Slices -/

/-- A slice is what stands between the characters before its range and those after it. -/
theorem slice_eq_ok_iff {source text : String} {r : ByteRange} :
    slice source r = .ok text ↔ ∃ pre post, source.toList = pre ++ text.toList ++ post ∧
      r = ⟨byteLength pre, byteLength pre + byteLength text.toList⟩ := by
  constructor
  · intro h
    have hslice : slice? source r = some text := by
      unfold slice at h
      split at h
      · next heq =>
        cases h
        exact heq
      · cases h
    unfold slice? at hslice
    split at hslice
    · next hle =>
      obtain ⟨cs, hdrop, hmap⟩ := Option.bind_eq_some_iff.1 hslice
      obtain ⟨inner, htake, rfl⟩ := Option.map_eq_some_iff.1 hmap
      obtain ⟨pre, hsource, hpre⟩ := dropBytes?_eq_some hdrop
      obtain ⟨post, rfl, hinner⟩ := takeBytes?_eq_some htake
      refine ⟨pre, post, ?_, ?_⟩
      · rw [hsource, String.toList_ofList, List.append_assoc]
      · rw [String.toList_ofList, hpre, hinner, Nat.add_sub_cancel' hle]
    · cases hslice
  · rintro ⟨pre, post, hsource, rfl⟩
    have hslice : slice? source ⟨byteLength pre, byteLength pre + byteLength text.toList⟩ =
        some text := by
      rw [slice?, if_pos (Nat.le_add_right _ _), hsource, List.append_assoc,
        dropBytes?_byteLength_append, Option.bind_some, Nat.add_sub_cancel_left,
        takeBytes?_byteLength_append, Option.map_some, String.ofList_toList]
    rw [slice, hslice]

theorem slice_append {source : String} {pre cs post : List Char}
    (h : source.toList = pre ++ cs ++ post) :
    slice source ⟨byteLength pre, byteLength pre + byteLength cs⟩ = .ok (.ofList cs) :=
  slice_eq_ok_iff.2 ⟨pre, post, by rw [String.toList_ofList, h], by rw [String.toList_ofList]⟩

/-- A position between two characters of a text, or at one of its ends. -/
def IsBoundary (source : String) (n : Nat) : Prop :=
  ∃ pre post, source.toList = pre ++ post ∧ byteLength pre = n

end Text

/-- A range whose text can be read: it is not inverted, and its ends are boundaries. -/
structure ByteRange.Within (source : String) (r : ByteRange) : Prop where
  start : Text.IsBoundary source r.start
  stop : Text.IsBoundary source r.stop
  start_le_stop : r.start ≤ r.stop

namespace Text

variable {source : String}

/-- Of two boundaries the characters before the first one are the head of those before the second. -/
theorem IsBoundary.exists_between {m n : Nat} (hm : IsBoundary source m)
    (hn : IsBoundary source n) (h : m ≤ n) :
    ∃ pre cs post, source.toList = pre ++ cs ++ post ∧ byteLength pre = m ∧
      byteLength pre + byteLength cs = n := by
  obtain ⟨pre, post, hpre, rfl⟩ := hm
  obtain ⟨pre', post', hpre', rfl⟩ := hn
  obtain ⟨cs, rfl, rfl⟩ | ⟨cs, rfl, rfl⟩ := List.append_eq_append_iff.1 (hpre.symm.trans hpre')
  · refine ⟨pre, cs, post', ?_, rfl, ?_⟩
    · rw [hpre, List.append_assoc]
    · rw [byteLength_append]
  · have hcs : cs = [] := by
      apply eq_nil_of_byteLength_eq_zero
      rw [byteLength_append] at h
      omega
    refine ⟨pre', [], post, ?_, ?_, ?_⟩
    · rw [hpre, hcs]
    · rw [hcs, List.append_nil]
    · rw [byteLength_nil, Nat.add_zero]

theorem exists_slice_iff {r : ByteRange} :
    (∃ text, slice source r = .ok text) ↔ r.Within source := by
  constructor
  · rintro ⟨text, h⟩
    obtain ⟨pre, post, hsource, rfl⟩ := slice_eq_ok_iff.1 h
    refine ⟨⟨pre, text.toList ++ post, ?_, rfl⟩, ⟨pre ++ text.toList, post, hsource, ?_⟩, ?_⟩
    · rw [hsource, List.append_assoc]
    · rw [byteLength_append]
    · exact Nat.le_add_right _ _
  · rintro ⟨hstart, hstop, hle⟩
    obtain ⟨pre, cs, post, hsource, h1, h2⟩ := hstart.exists_between hstop hle
    refine ⟨.ofList cs, ?_⟩
    have hr : r = ⟨byteLength pre, byteLength pre + byteLength cs⟩ := by
      rw [h2, h1]
    rw [hr]
    exact slice_append hsource

instance (r : ByteRange) : Decidable (r.Within source) :=
  match h : slice source r with
  | .ok text => .isTrue (exists_slice_iff.1 ⟨text, h⟩)
  | .error e => .isFalse fun hw => by
    obtain ⟨text, htext⟩ := exists_slice_iff.2 hw
    rw [h] at htext
    cases htext

/-- The text of a range, and nothing where it cannot be read. -/
def textOf (source : String) (r : ByteRange) : String := (slice? source r).getD ""

theorem slice_eq_textOf {r : ByteRange} (h : r.Within source) :
    slice source r = .ok (textOf source r) := by
  obtain ⟨text, htext⟩ := exists_slice_iff.2 h
  unfold slice at htext ⊢
  unfold textOf
  split at htext
  · next heq => rw [heq]; rfl
  · cases htext

/-! ### The text before a position -/

/-- The characters before byte `n`, if that is a boundary. -/
def before (source : String) (n : Nat) : List Char := (takeBytes? n source.toList).getD []

theorem before_eq {pre post : List Char} (h : source.toList = pre ++ post) :
    before source (byteLength pre) = pre := by
  rw [before, h, takeBytes?_byteLength_append, Option.getD_some]

/-- The characters between two boundaries are read as they stand. -/
theorem slice_between {pre cs post : List Char} (h : source.toList = pre ++ cs ++ post) :
    slice source ⟨byteLength pre, byteLength (pre ++ cs)⟩ = .ok (.ofList cs) := by
  rw [byteLength_append]
  exact slice_append h

theorem slice_zero {n : Nat} (h : IsBoundary source n) :
    slice source ⟨0, n⟩ = .ok (.ofList (before source n)) := by
  obtain ⟨pre, post, hsource, rfl⟩ := h
  rw [before_eq hsource]
  exact slice_between (show source.toList = [] ++ pre ++ post from hsource)

/-! ### Indentation -/

/-- What stands before byte `n` in its line. -/
def lineHead (source : String) (n : Nat) : List Char := takeEndWhile (· != '\n') (before source n)

/-- The spaces and tabs before byte `n`, if nothing else stands before it in its line. -/
def indentation (source : String) (n : Nat) : String :=
  if (lineHead source n).all fun c => c == ' ' || c == '\t' then .ofList (lineHead source n) else ""

/-- The range that is moved to the head of its line has the text with its indentation, and it ends
where it did. -/
theorem slice_withIndent {r : ByteRange} (h : r.Within source) :
    ∃ r', withIndent source r = .ok r' ∧
      slice source r' = .ok (indentation source r.start ++ textOf source r) ∧ r'.stop = r.stop := by
  obtain ⟨pre, cs, post, hsource, hpre, hstop⟩ := h.start.exists_between h.stop h.start_le_stop
  have hbefore : before source r.start = pre := by
    rw [← hpre]
    exact before_eq (show source.toList = pre ++ (cs ++ post) by rw [hsource, List.append_assoc])
  have hr : r = ⟨byteLength pre, byteLength pre + byteLength cs⟩ := by
    rw [hstop, hpre]
  have htext : textOf source r = .ofList cs := by
    have hslice := slice_append hsource
    rw [← hr, slice_eq_textOf h] at hslice
    exact Except.ok.inj hslice
  unfold withIndent indentation lineHead
  rw [slice_zero h.start, hbefore, htext]
  simp only [bind, Except.bind, pure, Except.pure, String.toList_ofList]
  split
  · next hall =>
    refine ⟨_, rfl, ?_, rfl⟩
    have hhead := takeEndWhile_append_dropEndWhile (· != '\n') pre
    have hsplit : source.toList = dropEndWhile (· != '\n') pre ++
        (takeEndWhile (· != '\n') pre ++ cs) ++ post := by
      rw [← List.append_assoc, hhead, hsource]
    have hlength : byteLength (dropEndWhile (· != '\n') pre) =
        r.start - byteLength (takeEndWhile (· != '\n') pre) := by
      have hsum := congrArg byteLength hhead
      rw [byteLength_append, hpre] at hsum
      omega
    have hslice := slice_between hsplit
    rw [← List.append_assoc, hhead, hlength, byteLength_append, hstop] at hslice
    rw [hslice, String.ofList_append]
  · refine ⟨r, rfl, ?_, rfl⟩
    rw [String.empty_append, ← htext]
    exact slice_eq_textOf h

/-- A range that is moved to the head of its line can be read as well. -/
theorem withIndent_eq_ok {r : ByteRange} (h : r.Within source) :
    ∃ r', withIndent source r = .ok r' ∧ r'.Within source ∧ r'.stop = r.stop := by
  obtain ⟨r', hr', hslice, hstop⟩ := slice_withIndent h
  exact ⟨r', hr', exists_slice_iff.1 ⟨_, hslice⟩, hstop⟩

end Text

end MarkdownEdits
