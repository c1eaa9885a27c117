import MarkdownEdits.Payload.Basic
import MarkdownEdits.Proofs.JsonMembers
import MarkdownEdits.Proofs.JsonReading

/-!
# Markdown in JSON bodies

A body that is declared to be JSON carries the `markdown` member of its object, and a body that is
no JSON carries itself. Of several members with that name the last one in the text counts, whatever
other members stand around it.
-/

namespace MarkdownEdits

namespace Text

theorem hasPart_iff {part cs : List Char} : hasPart part cs = true ↔ part <:+: cs := by
  induction cs with
  | nil => simp [hasPart, List.isEmpty_iff]
  | cons c cs ih =>
    rw [hasPart, Bool.or_eq_true, List.isPrefixOf_iff_prefix, ih, List.infix_cons_iff]

end Text

namespace Json

/-! ### Members as they are written -/

/-- The members of the object that a text holds, in the order of the text. -/
def writtenMembers? (text : String) : Option (List (String × Json)) :=
  match skipSpaces text.toList with
  | '\x7b' :: rest =>
    match delimited (namedValue (value? (maxDepth - 1))) '\x7d' rest with
    | some (ms, rest) => if (skipSpaces rest).isEmpty then some ms else none
    | none => none
  | _ => none

theorem scalar?_ne_object {cs rest : List Char} {ms : List (String × Json)} :
    scalar? cs ≠ some (.object ms, rest) := by
  unfold scalar?
  split
  · nofun
  · nofun
  · nofun
  · intro h
    obtain ⟨_, -, heq⟩ := Option.map_eq_some_iff.1 h
    cases heq
  · intro h
    obtain ⟨_, -, heq⟩ := Option.map_eq_some_iff.1 h
    cases heq

/-- What is read where no bracket opens is no object. -/
theorem value?_eq_object {depth : ℕ} {cs rest : List Char} {ms : List (String × Json)}
    (h : value? (depth + 1) cs = some (.object ms, rest)) :
    ∃ inside written, skipSpaces cs = '\x7b' :: inside ∧
      delimited (namedValue (value? depth)) '\x7d' inside = some (written, rest) ∧
      ms = sortMembers written := by
  rw [value?] at h
  split at h
  · obtain ⟨_, -, heq⟩ := Option.map_eq_some_iff.1 h
    cases heq
  · next inside hbrace =>
    obtain ⟨⟨written, rest⟩, hwritten, heq⟩ := Option.map_eq_some_iff.1 h
    cases heq
    exact ⟨inside, written, hbrace, hwritten, rfl⟩
  · exact absurd h scalar?_ne_object

/-- **A text holds an object if its members can be read, and the object has them sorted.** -/
theorem parse?_eq_object_iff {text : String} {ms : List (String × Json)} :
    parse? text = some (.object ms) ↔
      ∃ written, writtenMembers? text = some written ∧ ms = sortMembers written := by
  constructor
  · intro h
    rw [parse?] at h
    split at h
    · next v rest hread =>
      split at h
      · next hend =>
        cases h
        obtain ⟨inside, written, hbrace, hwritten, rfl⟩ := value?_eq_object hread
        refine ⟨written, ?_, rfl⟩
        simp only [writtenMembers?, hbrace, maxDepth, Nat.reduceSub, hwritten, if_pos hend]
      · cases h
    · cases h
  · rintro ⟨written, hmembers, rfl⟩
    rw [writtenMembers?] at hmembers
    split at hmembers
    · next inside hbrace =>
      split at hmembers
      · next rest hwritten =>
        split at hmembers
        · next hend =>
          cases hmembers
          have hread : value? maxDepth text.toList = some (.object (sortMembers written), rest) := by
            rw [maxDepth, value?, hbrace]
            simp only [maxDepth, Nat.reduceSub] at hwritten
            simp only [hwritten]
            rfl
          simp only [parse?, hread, if_pos hend]
        · cases hmembers
      · cases hmembers
    · cases hmembers

/-! ### Printed texts -/

/-- A text of a value, compact or indented, with blanks around it. -/
inductive IsPrinted (v : Json) : String → Prop
  | compact {front back : List Char} (hfront : IsGap front) (hback : IsGap back) :
      IsPrinted v (.ofList front ++ v.compact ++ .ofList back)
  | indented {front back : List Char} (hfront : IsGap front) (hback : IsGap back) :
      IsPrinted v (.ofList front ++ v.indented ++ .ofList back)

/-- **A printed value is read**, as what reading makes of it. -/
theorem IsPrinted.parse? {v : Json} {text : String} (h : IsPrinted v text)
    (hv : v.Printable maxDepth) : Json.parse? text = some v.reread := by
  cases h with
  | compact hfront hback =>
    have hread := ((reads_compactChars v hv).gap_append hfront).parse? hback
    rwa [String.ofList_append, String.ofList_append] at hread
  | indented hfront hback =>
    have hread := ((reads_indentedChars v 0 hv).gap_append hfront).parse? hback
    rwa [String.ofList_append, String.ofList_append] at hread

end Json

namespace Payload

open Json (writtenMembers? sortMembers IsPrinted Printable maxDepth)

theorem isJson_iff {t : String} :
    isJson (some t) = true ↔ "application/json".toList <:+: t.toList := by
  rw [isJson, Option.any_some, Text.hasPart_iff]

section Extract

variable {body : String} {contentType : Option String}

/-- What is extracted depends on the text that a body carries alone. -/
theorem extract_of_carried {s : String} (h : carried body contentType = .ok s) :
    extract body contentType = extract s none := by
  have hplain : carried s none = .ok s := rfl
  rw [extract, h, extract, hplain]

theorem carried_of_parse?_eq_none (h : Json.parse? body = none) :
    carried body contentType = .ok body := by
  rw [carried, h]
  split <;> rfl

/-- A declared object carries its member. -/
theorem carried_of_member {v : Json} {s : String} (hjson : isJson contentType = true)
    (hbody : Json.parse? body = some v) (hv : v.member? "markdown" = some (.string s)) :
    carried body contentType = .ok s := by
  rw [carried, if_pos hjson, hbody]
  simp only [hv]
  rfl

/-- Without such a member there is no Markdown. -/
theorem extract_of_no_member {v : Json} (hjson : isJson contentType = true)
    (hbody : Json.parse? body = some v) (hv : ∀ s, v.member? "markdown" ≠ some (.string s)) :
    extract body contentType = .error .missingMarkdown := by
  have hnone : (v.member? "markdown").bind Json.string? = none := by
    rw [Option.bind_eq_none_iff]
    intro w hw
    cases w with
    | string s => exact absurd hw (hv s)
    | null | bool | number | array | object => rfl
  have hcarried : carried body contentType = .error .missingMarkdown := by
    rw [carried, if_pos hjson, hbody]
    simp only [hnone]
  rw [extract, hcarried]
  rfl

end Extract

/-- **JSON bodies and plain bodies agree.** What is no JSON counts as it stands. An object has the
members that are written, and counts as the last one named `markdown` if that is a string; nothing
else has Markdown. So an object printed around a text does not change what is extracted, whatever its
other members are. -/
theorem extract_json_agrees {t : String} (ht : "application/json".toList <:+: t.toList)
    (body : String) :
    (Json.parse? body = none → extract body (some t) = extract body none) ∧
    (∀ ms, Json.parse? body = some (.object ms) ↔
      ∃ written, writtenMembers? body = some written ∧ ms = sortMembers written) ∧
    (∀ before s behind, writtenMembers? body = some (before ++ ("markdown", .string s) :: behind) →
      (∀ m ∈ behind, m.1 ≠ "markdown") → extract body (some t) = extract s none) ∧
    (∀ v, Json.parse? body = some v →
      (∀ before s behind,
        writtenMembers? body = some (before ++ ("markdown", .string s) :: behind) →
          ∃ m ∈ behind, m.1 = "markdown") →
      extract body (some t) = .error .missingMarkdown) ∧
    (∀ before s behind,
      (Json.object (before ++ ("markdown", .string s) :: behind)).Printable maxDepth →
      (∀ m ∈ behind, m.1 ≠ "markdown") →
      IsPrinted (.object (before ++ ("markdown", .string s) :: behind)) body →
      extract body (some t) = extract s none) := by
  have hjson := isJson_iff.2 ht
  refine ⟨fun hnone => ?_, fun ms => Json.parse?_eq_object_iff,
    fun before s behind hmembers hlast => ?_, fun v hv hother => ?_,
    fun before s behind hprintable hlast hprinted => ?_⟩
  · exact extract_of_carried (carried_of_parse?_eq_none hnone)
  · have hparse := Json.parse?_eq_object_iff.2 ⟨_, hmembers, rfl⟩
    have hmember := Json.lookup_sortMembers_append before "markdown" (.string s) hlast
    exact extract_of_carried (carried_of_member hjson hparse hmember)
  · refine extract_of_no_member hjson hv fun s hmember => ?_
    cases v with
    | object ms =>
      obtain ⟨written, hmembers, rfl⟩ := Json.parse?_eq_object_iff.1 hv
      obtain ⟨before, behind, rfl, hlast⟩ := Json.lookup_sortMembers_eq_some_iff.1 hmember
      obtain ⟨m, hm, hname⟩ := hother before s behind hmembers
      exact hlast m hm hname
    | null | bool | number | string | array => cases hmember
  · have hparse := hprinted.parse? hprintable
    rw [Json.reread, Json.rereadMembers_eq_map, List.map_append, List.map_cons] at hparse
    have hlastRead : ∀ m ∈ behind.map fun m => (m.1, m.2.reread), m.1 ≠ "markdown" := by
      intro m hm
      obtain ⟨written, hwritten, rfl⟩ := List.mem_map.1 hm
      exact hlast written hwritten
    have hmember := Json.lookup_sortMembers_append (before.map fun m => (m.1, m.2.reread))
      "markdown" (.string s) hlastRead
    exact extract_of_carried (carried_of_member hjson hparse hmember)

/-- A body that is no JSON, one without the member, and one that has it twice, between the largest
double and an empty list. -/
theorem extract_json_agrees_on_three_bodies :
    let t := "application/json; charset=utf-8"
    let before : List (String × Json) :=
      [("a", .number (.double ⟨false, 2 ^ 53 - 1, 971⟩)), ("markdown", .null)]
    let behind : List (String × Json) := [("b", .array [])]
    let v := Json.object (before ++ ("markdown", .string "SGVsbG8h\t") :: behind)
    "application/json".toList <:+: t.toList ∧
    extract "\x7b not json" (some t) = .ok "\x7b not json" ∧
    extract "\x7b\"text\": \"x\"\x7d" (some t) = .error .missingMarkdown ∧
    extract (.ofList [' '] ++ v.indented ++ .ofList ['\n']) (some t) = .ok "Hello!" := by
  intro t before behind v
  have ht : "application/json".toList <:+: t.toList := by decide
  refine ⟨ht, ?_, ?_, ?_⟩
  · exact (extract_json_agrees ht "\x7b not json").1 rfl
  · have hmembers : writtenMembers? "\x7b\"text\": \"x\"\x7d" = some [("text", .string "x")] := rfl
    refine (extract_json_agrees ht _).2.2.2.1 (.object [("text", .string "x")]) rfl ?_
    intro before s behind h
    rw [hmembers] at h
    have hmem : ("markdown", Json.string s) ∈ [("text", Json.string "x")] := by
      rw [Option.some.inj h]
      simp
    simp at hmem
  · have hprinted : IsPrinted v (.ofList [' '] ++ v.indented ++ .ofList ['\n']) :=
      .indented Json.isGap_space (Json.isGap_newLine 0)
    have hprintable : v.Printable maxDepth :=
      ⟨⟨by decide, by decide, by decide⟩, trivial, trivial, trivial, trivial⟩
    have h := (extract_json_agrees ht _).2.2.2.2 before "SGVsbG8h\t" behind hprintable (by decide) hprinted
    rw [h]
    rfl

end Payload

end MarkdownEdits
