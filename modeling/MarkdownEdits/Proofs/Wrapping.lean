import MarkdownEdits.Proofs.EncodedText
import MarkdownEdits.Proofs.Lines
import MarkdownEdits.Proofs.Recognition

/-!
# Wrapped base64

Base64 is sent in lines of a fixed width. Whatever the width, from sixteen characters on, and
whatever the line ends, a wrapped text is taken for base64 and its content is found again. The lines
of a wrapped text are followed character by character: all of them but the last are full.
-/

namespace MarkdownEdits

namespace Text

/-! ### Wrapping -/

/-- The ways to end a line. -/
inductive LineEnd
  | lineFeed
  | carriageReturnLineFeed
  deriving DecidableEq, Repr

def LineEnd.chars : LineEnd → List Char
  | .lineFeed => ['\n']
  | .carriageReturnLineFeed => ['\r', '\n']

/-- A text broken into lines of `width` characters. On the line where it begins there is room for
`room` of them. -/
def breakLines (lineEnd : LineEnd) (width : Nat) : Nat → List Char → List Char
  | _, [] => []
  | 0, c :: cs => lineEnd.chars ++ c :: breakLines lineEnd width (width - 1) cs
  | room + 1, c :: cs => c :: breakLines lineEnd width room cs

/-- A text in lines of `width` characters; `closed` says whether the last line has an end, too. -/
def wrap (width : Nat) (lineEnd : LineEnd) (closed : Bool) (s : String) : String :=
  .ofList (breakLines lineEnd width width s.toList ++ if closed then lineEnd.chars else [])

example : wrap 4 .lineFeed false "abcdefghij" = "abcd\nefgh\nij" := by decide

section Wrap

variable {lineEnd : LineEnd} {width : Nat}

theorem isBlank_of_mem_chars {c : Char} (h : c ∈ lineEnd.chars) : isBlank c = true := by
  cases lineEnd with
  | lineFeed => obtain rfl := List.mem_singleton.1 h; rfl
  | carriageReturnLineFeed =>
    obtain rfl | h := List.mem_cons.1 h
    · rfl
    · obtain rfl := List.mem_singleton.1 h; rfl

/-- Line ends are all that wrapping adds. -/
theorem filter_breakLines (room : Nat) (cs : List Char) :
    (breakLines lineEnd width room cs).filter (fun c => !isBlank c) =
      cs.filter fun c => !isBlank c := by
  have hend : lineEnd.chars.filter (fun c => !isBlank c) = [] :=
    filter_not_isBlank_eq_nil fun c hc => isBlank_of_mem_chars hc
  fun_induction breakLines lineEnd width room cs with
  | case1 => rfl
  | case2 c cs ih =>
    rw [List.filter_append, hend, List.nil_append, List.filter_cons, ih, List.filter_cons]
  | case3 room c cs ih => rw [List.filter_cons, ih, List.filter_cons]

theorem withoutBlanks_wrap (closed : Bool) (s : String) :
    withoutBlanks (wrap width lineEnd closed s) = withoutBlanks s := by
  have hend : (if closed then lineEnd.chars else []).filter (fun c => !isBlank c) = [] := by
    cases closed with
    | false => rfl
    | true => exact filter_not_isBlank_eq_nil fun c hc => isBlank_of_mem_chars hc
  rw [withoutBlanks, wrap, String.toList_ofList, List.filter_append, filter_breakLines, hend,
    List.append_nil, withoutBlanks]

/-! ### The lines of a wrapped text -/

/-- A character that goes on a line as one byte, and does not end it. -/
def IsPlain (c : Char) : Prop := c ≠ '\n' ∧ c ≠ '\r' ∧ c.utf8Size = 1

/-- Such a character goes ahead of the first line. -/
theorem lines_cons_of_isPlain {c : Char} (h : IsPlain c) (cs : List Char) :
    lines (c :: cs) = (c :: (lines cs).headD []) :: (lines cs).tail := by
  rw [lines_cons h.1 fun hc => absurd hc h.2.1]
  cases lines cs <;> rfl

theorem lines_lineEnd (cs : List Char) : lines (lineEnd.chars ++ cs) = [] :: lines cs := by
  cases lineEnd <;> rfl

/-- Lines of which all but the last are full: the first one has `room` bytes, and the others have
`width`. Only the first one can be empty. -/
inductive FullLines (width : Nat) : Nat → List (List Char) → Prop
  | nil (room : Nat) : FullLines width room []
  | last (room : Nat) (line : List Char) : FullLines width room [line]
  | cons {room : Nat} {line next : List Char} {rest : List (List Char)}
    (full : byteLength line = room) (nonempty : next ≠ [])
    (lines : FullLines width width (next :: rest)) : FullLines width room (line :: next :: rest)

/-- A character takes up the room of one. -/
theorem FullLines.place {room : Nat} {ls : List (List Char)} (h : FullLines width room ls)
    {c : Char} (hc : IsPlain c) : FullLines width (room + 1) ((c :: ls.headD []) :: ls.tail) := by
  cases h with
  | nil => exact .last _ _
  | last room line => exact .last _ _
  | cons full nonempty lines =>
    refine .cons ?_ nonempty lines
    rw [List.headD_cons, byteLength, hc.2.2, full, Nat.add_comm]

/-- **All lines of a broken text are full but the last.** -/
theorem fullLines_breakLines (hwidth : 0 < width) (closed : Bool) {cs : List Char}
    (hcs : ∀ c ∈ cs, IsPlain c) (room : Nat) :
    FullLines width room
      (lines (breakLines lineEnd width room cs ++ if closed then lineEnd.chars else [])) := by
  fun_induction breakLines lineEnd width room cs with
  | case1 room =>
    cases closed with
    | false => exact .nil room
    | true => cases lineEnd <;> exact .last room []
  | case2 c cs ih =>
    obtain ⟨hc, hrest⟩ := List.forall_mem_cons.1 hcs
    have hline := (ih hrest).place hc
    rw [Nat.sub_add_cancel hwidth] at hline
    rw [List.append_assoc, lines_lineEnd, List.cons_append, lines_cons_of_isPlain hc]
    exact .cons rfl (List.cons_ne_nil _ _) hline
  | case3 room c cs ih =>
    obtain ⟨hc, hrest⟩ := List.forall_mem_cons.1 hcs
    rw [List.cons_append, lines_cons_of_isPlain hc]
    exact (ih hrest).place hc

/-- The first line of a broken text is not empty. -/
theorem head_lines_breakLines (hwidth : 0 < width) {cs : List Char} (hne : cs ≠ [])
    (hcs : ∀ c ∈ cs, IsPlain c) (more : List Char) :
    ∀ line ∈ (lines (breakLines lineEnd width width cs ++ more)).head?, line ≠ [] := by
  obtain ⟨c, cs, rfl⟩ := List.exists_cons_of_ne_nil hne
  obtain ⟨room, rfl⟩ := Nat.exists_eq_succ_of_ne_zero (Nat.ne_of_gt hwidth)
  rw [breakLines, List.cons_append, lines_cons_of_isPlain (List.forall_mem_cons.1 hcs).1]
  intro line hline
  rw [← Option.some.inj hline]
  exact List.cons_ne_nil _ _

theorem FullLines.eq_width {room : Nat} {ls : List (List Char)} (h : FullLines width room ls)
    (hroom : room = width) : ∀ n ∈ (ls.map byteLength).dropLast, n = width := by
  induction h with
  | nil => exact nofun
  | last => exact nofun
  | cons full nonempty lines ih =>
    rw [List.map_cons, List.map_cons, List.dropLast_cons_cons, ← List.map_cons]
    exact List.forall_mem_cons.2 ⟨full.trans hroom, ih rfl⟩

/-- No line is empty, if the first one is not. -/
theorem FullLines.filter_eq {room : Nat} {ls : List (List Char)} (h : FullLines width room ls)
    (hfirst : ∀ line ∈ ls.head?, line ≠ []) : ls.filter (fun line => !line.isEmpty) = ls := by
  have hkept : ∀ {line : List Char}, line ≠ [] → (!line.isEmpty) = true := by
    intro line hline
    rw [Bool.not_eq_true', List.isEmpty_eq_false_iff]
    exact hline
  rw [List.filter_eq_self]
  induction h with
  | nil => exact nofun
  | last room line => exact List.forall_mem_singleton.2 (hkept (hfirst line rfl))
  | @cons room line next rest full nonempty lines ih =>
    have hnext : ∀ line ∈ (next :: rest).head?, line ≠ [] := by
      intro line hline
      rwa [← Option.some.inj hline]
    exact List.forall_mem_cons.2 ⟨hkept (hfirst line rfl), ih hnext⟩

end Wrap

end Text

/-! ### Recognising a wrapped text -/

namespace Payload

open Text

/-- Lines that are full but for the last are as wide as wrapped base64 is. -/
theorem uniformWidth_of_fullLines {width : Nat} {ls : List (List Char)}
    (h : FullLines width width ls) (hwidth : minLineWidth ≤ width) :
    uniformWidth (ls.map byteLength) = true := by
  have hall := h.eq_width rfl
  cases h with
  | nil => rfl
  | last => rfl
  | @cons room line next rest full nonempty lines =>
    rw [List.map_cons] at hall ⊢
    rw [uniformWidth, Bool.and_eq_true, decide_eq_true_eq, List.all_eq_true]
    · refine ⟨by rwa [full], fun n hn => ?_⟩
      rw [beq_iff_eq, full]
      exact hall n hn
    · exact nofun

/-- A symbol goes on a line as one byte, and does not end it. -/
theorem isPlain_of_mem_encodeBase64 {s : String} {c : Char} (h : c ∈ (encodeBase64 s).toList) :
    IsPlain c := by
  obtain ⟨hsize, hblank⟩ := of_mem_encodeBase64 h
  refine ⟨?_, ?_, hsize⟩
  · rintro rfl
    cases hblank
  · rintro rfl
    cases hblank

theorem looksLikeBase64_wrap {s : String} (hs : s ≠ "") {width : Nat}
    (hwidth : minLineWidth ≤ width) (lineEnd : LineEnd) (closed : Bool) :
    looksLikeBase64 (wrap width lineEnd closed (encodeBase64 s)) = true := by
  have hpos : 0 < width := Nat.lt_of_lt_of_le (by decide) hwidth
  have hplain : ∀ c ∈ (encodeBase64 s).toList, IsPlain c := fun c hc =>
    isPlain_of_mem_encodeBase64 hc
  have hne : (encodeBase64 s).toList ≠ [] := by
    rw [encodeBase64, String.toList_ofList, Ne, List.map_eq_nil_iff]
    exact Base64.encode_ne_nil (bytes_ne_nil hs)
  have hlines : ∀ text, text = wrap width lineEnd closed (encodeBase64 s) →
      (lines text.toList).filter (fun line => !line.isEmpty) = lines text.toList ∧
        uniformWidth ((lines text.toList).map byteLength) = true := by
    rintro text rfl
    rw [wrap, String.toList_ofList]
    have hfull : FullLines width width (lines (breakLines lineEnd width width
        (encodeBase64 s).toList ++ if closed then lineEnd.chars else [])) :=
      fullLines_breakLines hpos closed hplain width
    exact ⟨hfull.filter_eq (head_lines_breakLines hpos hne hplain _),
      uniformWidth_of_fullLines hfull hwidth⟩
  obtain ⟨hfilter, hwidths⟩ := hlines _ rfl
  rw [looksLikeBase64, Bool.and_eq_true, hfilter, withoutBlanks_wrap, withoutBlanks_encodeBase64,
    bytes_encodeBase64]
  exact ⟨fillsGroups_of_decode (Base64.decode_eq_ok_iff.2 rfl)
    (Base64.encode_ne_nil (bytes_ne_nil hs)), hwidths⟩

/-- **Wrapped base64 is undone.** Broken into lines of any width from sixteen characters on, with
either line end and with or without one behind the last line, the base64 form of a text that is not
empty is taken for base64 and normalised to the text. Without a content type such a body is accepted
as well, unless the text is blank. -/
theorem recover_wrapped {s : String} (hs : s ≠ "") {width : Nat} (hwidth : 16 ≤ width)
    (lineEnd : LineEnd) (closed : Bool) :
    normalize (wrap width lineEnd closed (encodeBase64 s)) = s ∧
      (¬ IsBlankText s → extract (wrap width lineEnd closed (encodeBase64 s)) none = .ok s) := by
  have hlooks := looksLikeBase64_wrap hs hwidth lineEnd closed
  have hdecode : decodeBase64 (wrap width lineEnd closed (encodeBase64 s)) = .ok s := by
    rw [decodeBase64_eq_ok_iff, withoutBlanks_wrap, withoutBlanks_encodeBase64]
  have hnormalize : normalize (wrap width lineEnd closed (encodeBase64 s)) = s := by
    rw [normalize, encodingOf, if_pos hlooks, hdecode]
  refine ⟨hnormalize, fun _ => extract_eq_ok_iff.2 ?_⟩
  exact ⟨_, rfl, not_isBlankText_of_looksLikeBase64 hlooks, hnormalize.symm⟩

/-- Three lines, the last of which is short. -/
theorem recover_wrapped_of_three_lines :
    "# Title\n\nwrapped *text* ü\n" ≠ "" ∧ 16 ≤ 16 ∧
    ¬ IsBlankText "# Title\n\nwrapped *text* ü\n" ∧
    wrap 16 .carriageReturnLineFeed true (encodeBase64 "# Title\n\nwrapped *text* ü\n") =
      "IyBUaXRsZQoKd3Jh\r\ncHBlZCAqdGV4dCog\r\nw7wK\r\n" ∧
    normalize "IyBUaXRsZQoKd3Jh\r\ncHBlZCAqdGV4dCog\r\nw7wK\r\n" =
      "# Title\n\nwrapped *text* ü\n" ∧
    extract "IyBUaXRsZQoKd3Jh\r\ncHBlZCAqdGV4dCog\r\nw7wK\r\n" none =
      .ok "# Title\n\nwrapped *text* ü\n" := by
  have hne : "# Title\n\nwrapped *text* ü\n" ≠ "" := by decide
  have hblank : ¬ IsBlankText "# Title\n\nwrapped *text* ü\n" := fun h =>
    absurd (h '#' (by decide)) (by decide)
  have hwrap : wrap 16 .carriageReturnLineFeed true
      (encodeBase64 "# Title\n\nwrapped *text* ü\n") =
        "IyBUaXRsZQoKd3Jh\r\ncHBlZCAqdGV4dCog\r\nw7wK\r\n" := by
    decide +kernel
  obtain ⟨hnormalize, hextract⟩ :=
    recover_wrapped hne (Nat.le_refl 16) .carriageReturnLineFeed true
  rw [hwrap] at hnormalize hextract
  exact ⟨hne, Nat.le_refl 16, hblank, hwrap, hnormalize, hextract hblank⟩

end Payload

end MarkdownEdits
