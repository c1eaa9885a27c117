import MarkdownEdits.Proofs.Wire

/-!
# Edits recovered from a batch

A batch says all there is to say about its edits: a reader that knows no more than the names of the
members (`editsOfJson?`) gets back from either printed text the edits that went in, so no text stands
for two lists of edits. Each request has one key, and one that sets a style sets the attribute that
its mask names and no other.
-/

namespace MarkdownEdits

open Json

/-! ### Reading requests -/

/-- The text that an object holds under a name. -/
def Json.text? (v : Json) (name : String) : Option String := (v.member? name).bind Json.string?

def TextRange.ofJson? (v : Json) : Option TextRange := do
  let start ← (v.member? "startIndex").bind Json.nat?
  let stop ← (v.member? "endIndex").bind Json.nat?
  return ⟨start, stop⟩

/-- The range that a request names. -/
def Json.range? (payload : Json) : Option TextRange :=
  (payload.member? "range").bind TextRange.ofJson?

/-- The style that an object with a single attribute sets. -/
def TextStyle.ofJson? : Json → Option TextStyle
  | .object [("bold", .bool true)] => some .bold
  | .object [("italic", .bool true)] => some .italic
  | .object [("link", value)] => (value.text? "url").map .link
  | .object [("weightedFontFamily", value)] => (value.text? "fontFamily").map .font
  | _ => none

/-- The edit that a request asks for. A style is read only if it is the one that the mask names. -/
def Edit.ofJson? : Json → Option Edit
  | .object [("insertText", payload)] => (payload.text? "text").map .insertText
  | .object [("updateParagraphStyle", payload)] => do
    let style ← payload.member? "paragraphStyle"
    let name ← style.text? "namedStyleType"
    let range ← payload.range?
    return .paragraphStyle name range
  | .object [("updateTextStyle", payload)] => do
    let style ← (payload.member? "textStyle").bind TextStyle.ofJson?
    let range ← payload.range?
    let mask ← payload.text? "fields"
    if mask = style.fieldMask then return .textStyle style range else none
  | .object [("createParagraphBullets", payload)] => do
    let range ← payload.range?
    let preset ← payload.text? "bulletPreset"
    return .listBullet preset range
  | .object [("deleteContentRange", payload)] => payload.range?.map .delete
  | _ => none

/-- The edits of a batch. -/
def editsOfJson? (body : Json) : Option (List Edit) := do
  let requests ← (body.member? "requests").bind Json.array?
  requests.mapM Edit.ofJson?

/-! ### Members of a printed object that has been read back -/

section Sorted

variable {ms : List (String × Json)} {name : String}

theorem Json.member?_sorted {v : Json} (h : ms.reverse.lookup name = some v) :
    (Json.object ms).sorted.member? name = some v.sorted := by
  rw [member?_sorted_object, h]
  rfl

theorem Json.text?_sorted {s : String} (h : ms.reverse.lookup name = some (.string s)) :
    (Json.object ms).sorted.text? name = some s := by
  rw [Json.text?, Json.member?_sorted h]
  rfl

theorem TextRange.ofJson?_sorted_json (r : TextRange) :
    TextRange.ofJson? r.json.sorted = some r := by
  have hstart : r.json.sorted.member? "startIndex" = some (.ofNat r.start) :=
    Json.member?_sorted (v := .ofNat r.start) rfl
  have hstop : r.json.sorted.member? "endIndex" = some (.ofNat r.stop) :=
    Json.member?_sorted (v := .ofNat r.stop) rfl
  rw [TextRange.ofJson?, hstart, hstop]
  rfl

theorem Json.range?_sorted {r : TextRange} (h : ms.reverse.lookup "range" = some r.json) :
    (Json.object ms).sorted.range? = some r := by
  rw [Json.range?, Json.member?_sorted h]
  exact r.ofJson?_sorted_json

end Sorted

/-! ### Requests read back -/

theorem TextStyle.ofJson?_sorted_json (s : TextStyle) :
    TextStyle.ofJson? s.json.sorted = some s := by
  cases s with
  | bold | italic => rfl
  | link url =>
    rw [TextStyle.json, sorted_singleton]
    show ((Json.object [("url", .string url)]).sorted.text? "url").map TextStyle.link = _
    rw [Json.text?_sorted rfl]
    rfl
  | font family =>
    rw [TextStyle.json, sorted_singleton]
    show ((Json.object [("fontFamily", .string family)]).sorted.text? "fontFamily").map
      TextStyle.font = _
    rw [Json.text?_sorted rfl]
    rfl

/-- **An edit is read back from its request.** -/
theorem Edit.ofJson?_sorted_json (e : Edit) : Edit.ofJson? e.json.sorted = some e := by
  cases e with
  | insertText text =>
    rw [Edit.json, sorted_singleton, Edit.ofJson?, Json.text?_sorted rfl]
    rfl
  | paragraphStyle name range =>
    have hname : (Json.object [("namedStyleType", .string name)]).sorted.text? "namedStyleType" =
        some name := Json.text?_sorted rfl
    rw [Edit.json, sorted_singleton, Edit.ofJson?, Json.member?_sorted rfl,
      Json.range?_sorted rfl]
    simp only [Option.bind_eq_bind, Option.bind_some, hname]
    rfl
  | textStyle style range =>
    rw [Edit.json, sorted_singleton, Edit.ofJson?, Json.member?_sorted rfl,
      Json.range?_sorted rfl, Json.text?_sorted rfl]
    show (TextStyle.ofJson? style.json.sorted).bind _ = _
    rw [style.ofJson?_sorted_json]
    simp
  | listBullet preset range =>
    rw [Edit.json, sorted_singleton, Edit.ofJson?, Json.range?_sorted rfl, Json.text?_sorted rfl]
    rfl
  | delete range =>
    rw [Edit.json, sorted_singleton, Edit.ofJson?, Json.range?_sorted rfl]
    rfl

theorem mapM_ofJson?_sorted (edits : List Edit) :
    ((edits.map Edit.json).map Json.sorted).mapM Edit.ofJson? = some edits := by
  induction edits with
  | nil => rfl
  | cons e edits ih =>
    rw [List.map_cons, List.map_cons, List.mapM_cons, e.ofJson?_sorted_json, ih]
    rfl

/-- **A list of edits is read back from its batch.** -/
theorem editsOfJson?_sorted_batchJson (edits : List Edit) :
    editsOfJson? (batchJson edits).sorted = some edits := by
  have hrequests : ((batchJson edits).sorted.member? "requests").bind Json.array? =
      some ((edits.map Edit.json).map Json.sorted) := by
    rw [batchJson, Json.member?_sorted rfl, Option.bind_some, Json.sorted, sortedItems_eq_map]
    rfl
  rw [editsOfJson?, hrequests]
  exact mapM_ofJson?_sorted edits

/-! ### What is written -/

/-- A request has one key. If it sets a style of text, it sets one attribute, and its mask is the
name of that. -/
def Json.IsRequest (v : Json) : Prop :=
  ∃ kind payload, v = .object [(kind, .object payload)] ∧ (payload.map Prod.fst).Nodup ∧
    (kind = "updateTextStyle" → ∃ name value,
      payload.lookup "textStyle" = some (.object [(name, value)]) ∧
      payload.lookup "fields" = some (.string name))

theorem Edit.isRequest_json (e : Edit) : e.json.IsRequest := by
  cases e with
  | textStyle style range => exact ⟨_, _, rfl, by simp, fun _ => ⟨_, _, rfl, rfl⟩⟩
  | insertText | paragraphStyle | listBullet | delete =>
    exact ⟨_, _, rfl, by simp, fun hkind => absurd hkind (by simp)⟩

/-- The offsets that an edit names are numbers of 64 bits. -/
def Edit.HasWordOffsets (e : Edit) : Prop :=
  ∀ r, e.range? = some r → r.start < 2 ^ 64 ∧ r.stop < 2 ^ 64

/-- The text is one of those in which the edits are printed as a batch. -/
def IsPrintedAs (edits : List Edit) (text : String) : Prop :=
  text = (batchJson edits).compact ∨ text = (batchJson edits).indented

/-- **A batch is read back from its text.** -/
theorem recover_printed {edits : List Edit} (h : ∀ e ∈ edits, e.HasWordOffsets) {text : String}
    (htext : IsPrintedAs edits text) : (Json.parse? text).bind editsOfJson? = some edits := by
  have hfits := fits_batchJson h
  have hparse : Json.parse? text = some (batchJson edits).sorted := by
    rcases htext with rfl | rfl
    · simpa using parse?_compact_append hfits isGap_nil
    · simpa using parse?_indented_append hfits isGap_nil
  rw [hparse, Option.bind_some, editsOfJson?_sorted_batchJson]

/-- **The wire format loses nothing.** One reader gets the edits back from either text in which they
are printed, so that no text stands for two lists of edits; and what is written for each edit is a
request with one key, in which a style has the attribute that the mask names and no other. -/
theorem batch_loses_nothing (edits : List Edit) (h : ∀ e ∈ edits, e.HasWordOffsets) :
    (Json.parse? (batchJson edits).compact).bind editsOfJson? = some edits ∧
    (Json.parse? (batchJson edits).indented).bind editsOfJson? = some edits ∧
    (∀ others, (∀ e ∈ others, e.HasWordOffsets) → ∀ text, IsPrintedAs edits text →
      IsPrintedAs others text → edits = others) ∧
    ∃ requests, batchJson edits = .object [("requests", .array requests)] ∧
      requests.length = edits.length ∧ ∀ v ∈ requests, v.IsRequest := by
  refine ⟨recover_printed h (.inl rfl), recover_printed h (.inr rfl), ?_, edits.map Edit.json, rfl,
    List.length_map _, fun v hv => ?_⟩
  · intro others hothers text htext htext'
    have hsame := (recover_printed h htext).symm.trans (recover_printed hothers htext')
    exact Option.some.inj hsame
  · obtain ⟨e, -, rfl⟩ := List.mem_map.1 hv
    exact e.isRequest_json

/-- Edits of all kinds, with texts that have to be escaped and the largest and smallest offsets. -/
def editsOfAllKinds : List Edit :=
  [.insertText "\"\x01😄\\\n", .paragraphStyle "HEADING_9" ⟨0, 2 ^ 64 - 1⟩,
    .textStyle .bold ⟨2 ^ 64 - 1, 0⟩, .textStyle .italic ⟨1, 1⟩, .textStyle (.link "") ⟨2, 3⟩,
    .textStyle (.font "link") ⟨3, 4⟩, .listBullet "\u2028" ⟨4, 5⟩, .delete ⟨1, 2 ^ 64 - 1⟩]

/-- They come back from both texts, and no other edits with such offsets are printed so. -/
theorem batch_loses_nothing_of_all_kinds :
    (∀ e ∈ editsOfAllKinds, e.HasWordOffsets) ∧
    (Json.parse? (batchJson editsOfAllKinds).compact).bind editsOfJson? = some editsOfAllKinds ∧
    (Json.parse? (batchJson editsOfAllKinds).indented).bind editsOfJson? = some editsOfAllKinds ∧
    ¬ IsPrintedAs [.delete ⟨1, 2⟩] (batchJson editsOfAllKinds).compact := by
  have hoffsets : ∀ e ∈ editsOfAllKinds, e.HasWordOffsets := by
    simp [editsOfAllKinds, Edit.HasWordOffsets, Edit.range?]
  obtain ⟨hcompact, hindented, hunique, -⟩ := batch_loses_nothing editsOfAllKinds hoffsets
  refine ⟨hoffsets, hcompact, hindented, fun hother => ?_⟩
  have hsame := hunique [.delete ⟨1, 2⟩] (by simp [Edit.HasWordOffsets, Edit.range?]) _ (.inl rfl)
    hother
  simp [editsOfAllKinds] at hsame

end MarkdownEdits
