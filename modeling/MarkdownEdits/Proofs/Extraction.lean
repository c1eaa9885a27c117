import MarkdownEdits.Payload.Basic
import MarkdownEdits.Proofs.Sequencing
import MarkdownEdits.Proofs.Trimming

/-!
# What is extracted from a payload

Extraction refuses a text of white space alone before it undoes base64. So the Markdown of a body is
never empty, and it is blank in one case: the body carries white space in its base64 form.
-/

namespace MarkdownEdits

/-! ### Decoded bytes -/

namespace Base64

theorem joinLast_ne_nil {vs : List Nat} {padding : Nat} (hlength : 2 ≤ vs.length)
    (hgroup : vs.length + padding = 4) : (joinLast vs).1 ≠ [] := by
  match vs with
  | [] => simp at hlength
  | [a] => simp at hlength
  | [a, b] => exact List.cons_ne_nil _ _
  | [a, b, c] => exact List.cons_ne_nil _ _
  | [a, b, c, d] => exact List.cons_ne_nil _ _
  | a :: b :: c :: d :: e :: rest =>
    simp only [List.length_cons] at hgroup
    omega

/-- A last group that is in form has at least one byte. -/
theorem decodeLast_ne_nil {offset : Nat} {group bytes : List UInt8}
    (h : decodeLast offset group = .ok bytes) : bytes ≠ [] := by
  obtain ⟨⟨vs, padding⟩, -, h⟩ := Except.bind_eq_ok_iff.1 h
  simp only at h
  split at h
  · cases h
  · next hlength =>
    split at h
    · cases h
    · next hgroup =>
      have hne := joinLast_ne_nil (by omega) (Decidable.not_not.1 hgroup)
      split at h
      · cases h
      · cases h
        exact hne

/-- Symbols stand for at least one byte. -/
theorem decode_ne_nil {symbols bytes : List UInt8} (h : decode symbols = .ok bytes)
    (hsymbols : symbols ≠ []) : bytes ≠ [] := by
  unfold decode at h
  split at h
  · next hlast => exact absurd (List.getLast?_eq_none_iff.1 hlast) hsymbols
  · next last hlast =>
    simp only at h
    split at h
    · cases h
    · obtain ⟨full, -, h⟩ := Except.bind_eq_ok_iff.1 h
      obtain ⟨rest, hrest, h⟩ := Except.bind_eq_ok_iff.1 h
      cases h
      exact List.append_ne_nil_of_right_ne_nil _ (decodeLast_ne_nil hrest)

end Base64

namespace Payload

open Text (IsBlankText)

section Decoding

variable {text decoded : String}

theorem bytes_ne_nil (h : text ≠ "") : Text.bytes text ≠ [] := by
  intro hnil
  apply h
  have hdata : text.toByteArray = ByteArray.empty := by
    apply ByteArray.ext
    exact Array.toList_eq_nil_iff.1 hnil
  rw [← String.toByteArray_inj, hdata, String.toByteArray_empty]

/-- Only a text with symbols has the shape of base64. -/
theorem withoutBlanks_ne_empty (h : looksLikeBase64 text = true) :
    Text.withoutBlanks text ≠ "" := by
  intro hempty
  rw [looksLikeBase64, hempty] at h
  cases h

theorem not_isBlankText_of_looksLikeBase64 (h : looksLikeBase64 text = true) :
    ¬ IsBlankText text := fun hblank =>
  withoutBlanks_ne_empty h (Text.withoutBlanks_eq_empty_iff.2 hblank)

/-- What symbols stand for is not the empty text. -/
theorem decodeBase64_ne_empty (h : decodeBase64 text = .ok decoded)
    (hsymbols : Text.withoutBlanks text ≠ "") : decoded ≠ "" := by
  rintro rfl
  obtain ⟨bytes, hdecode, h⟩ := Except.bind_eq_ok_iff.1 h
  rw [Except.mapError_eq_ok_iff] at hdecode
  split at h
  · next decoded hutf8 =>
    cases h
    have hbytes : (⟨bytes.toArray⟩ : ByteArray) = ByteArray.empty := by
      unfold String.fromUTF8? at hutf8
      split at hutf8
      · exact congrArg String.toByteArray (Option.some.inj hutf8)
      · cases hutf8
    apply Base64.decode_ne_nil hdecode (bytes_ne_nil hsymbols)
    simpa using congrArg ByteArray.data hbytes
  · cases h

theorem looksLikeBase64_of_encodingOf (h : encodingOf text = .base64 decoded) :
    looksLikeBase64 text = true ∧ decodeBase64 text = .ok decoded := by
  unfold encodingOf at h
  split at h
  · next hlooks =>
    refine ⟨hlooks, ?_⟩
    split at h
    · next heq =>
      cases h
      exact heq
    · cases h
  · cases h

/-- Undoing base64 either decodes a text or leaves it as it is. -/
theorem normalize_eq (text : String) :
    (∃ decoded, encodingOf text = .base64 decoded ∧ normalize text = decoded) ∨
      (∀ decoded, encodingOf text ≠ .base64 decoded) ∧ normalize text = text := by
  unfold normalize
  cases hencoding : encodingOf text with
  | base64 decoded => exact .inl ⟨decoded, rfl, rfl⟩
  | plain => exact .inr ⟨nofun, rfl⟩
  | lookalike fault => exact .inr ⟨nofun, rfl⟩

end Decoding

section Extract

variable {body : String} {contentType : Option String}

theorem carried_ne_empty_error : carried body contentType ≠ .error .empty := by
  unfold carried
  split
  · split
    · split <;> nofun
    · nofun
  · nofun

/-- **What is extracted**: the text that the body carries, if it is not blank, with its base64
undone. -/
theorem extract_eq_ok_iff {text : String} :
    extract body contentType = .ok text ↔
      ∃ c, carried body contentType = .ok c ∧ ¬ IsBlankText c ∧ text = normalize c := by
  rw [extract, Except.bind_eq_ok_iff]
  simp only [← Text.trim_eq_empty_iff]
  refine exists_congr fun c => and_congr_right fun _ => ?_
  split
  · next hblank => simp [hblank]
  · next hblank => simp [hblank, eq_comm, pure, Except.pure]

theorem extract_eq_empty_iff :
    extract body contentType = .error .empty ↔
      ∃ c, carried body contentType = .ok c ∧ IsBlankText c := by
  unfold extract
  cases hcarried : carried body contentType with
  | error e =>
    have hne : e ≠ .empty := fun he => carried_ne_empty_error (he ▸ hcarried)
    simp [bind, Except.bind, hne]
  | ok c =>
    simp only [bind, Except.bind, pure, Except.pure, Except.ok.injEq, exists_eq_left',
      ← Text.trim_eq_empty_iff]
    by_cases hblank : Text.trim c = ""
    · simp [hblank]
    · simp [hblank]

/-- The body carries white space in its base64 form. -/
def CarriesEncodedBlanks (body : String) (contentType : Option String) : Prop :=
  ∃ c decoded, carried body contentType = .ok c ∧ encodingOf c = .base64 decoded ∧
    IsBlankText decoded

/-- **Blank Markdown comes out of a payload in one way.** A body that carries white space alone is
refused as empty, and no other body is. What is extracted is never the empty text. It is not blank
either, unless the body carries white space in its base64 form, and such a body gives it. -/
theorem extract_not_blank (body : String) (contentType : Option String) :
    (extract body contentType = .error .empty ↔
      ∃ c, carried body contentType = .ok c ∧ IsBlankText c) ∧
    (∀ text, extract body contentType = .ok text → text ≠ "") ∧
    ((∀ text, extract body contentType = .ok text → ¬ IsBlankText text) ↔
      ¬ CarriesEncodedBlanks body contentType) := by
  refine ⟨extract_eq_empty_iff, fun text htext => ?_, fun h => ?_, fun h text htext => ?_⟩
  · obtain ⟨c, -, hc, rfl⟩ := extract_eq_ok_iff.1 htext
    obtain ⟨decoded, hencoding, hnormalize⟩ | ⟨-, hnormalize⟩ := normalize_eq c
    · obtain ⟨hlooks, hdecode⟩ := looksLikeBase64_of_encodingOf hencoding
      rw [hnormalize]
      exact decodeBase64_ne_empty hdecode (withoutBlanks_ne_empty hlooks)
    · rw [hnormalize]
      rintro rfl
      exact hc nofun
  · rintro ⟨c, decoded, hcarried, hencoding, hblank⟩
    have hlooks := (looksLikeBase64_of_encodingOf hencoding).1
    have hnormalize : decoded = normalize c := by
      rw [normalize, hencoding]
    exact h decoded
      (extract_eq_ok_iff.2 ⟨c, hcarried, not_isBlankText_of_looksLikeBase64 hlooks, hnormalize⟩)
      hblank
  · obtain ⟨c, hcarried, hc, rfl⟩ := extract_eq_ok_iff.1 htext
    obtain ⟨decoded, hencoding, hnormalize⟩ | ⟨-, hnormalize⟩ := normalize_eq c
    · rw [hnormalize]
      exact fun hblank => h ⟨c, decoded, hcarried, hencoding, hblank⟩
    · rwa [hnormalize]

/-- Three spaces come out of their base64 form, plain or in a JSON body. -/
theorem extract_encoded_blanks :
    extract "ICAg" none = .ok "   " ∧
    extract "\x7b\"markdown\": \"ICAg\"\x7d" (some "application/json") = .ok "   " ∧
    IsBlankText "   " :=
  ⟨rfl, rfl, Text.trim_eq_empty_iff.1 rfl⟩

end Extract

end Payload

end MarkdownEdits
