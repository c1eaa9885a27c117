import MarkdownEdits.Payload.Basic
import MarkdownEdits.Proofs.Codec

/-!
# Texts in base64

A text is written in base64 by way of its UTF-8 bytes. Reading leaves blanks out, and accepts just
the texts that are, but for blanks, the written form of some text.
-/

namespace MarkdownEdits

namespace Text

/-! ### The bytes of a text -/

theorem bytes_injective : Function.Injective bytes := by
  intro s t h
  apply String.toByteArray_inj.1
  apply ByteArray.ext
  exact Array.toList_inj.1 h

/-- Bytes are read as the text that they are the bytes of. -/
theorem fromUTF8?_eq_some_iff {bs : List UInt8} {s : String} :
    String.fromUTF8? ⟨bs.toArray⟩ = some s ↔ bs = bytes s := by
  unfold String.fromUTF8?
  constructor
  · intro h
    split at h
    · rw [← Option.some.inj h]
      rfl
    · cases h
  · rintro rfl
    have harray : (⟨(bytes s).toArray⟩ : ByteArray) = s.toByteArray := rfl
    rw [harray, dif_pos s.isValidUTF8]
    rfl

theorem utf8Size_ofUInt8 {b : UInt8} (h : b.toNat < 128) : (Char.ofUInt8 b).utf8Size = 1 := by
  rw [Char.utf8Size_eq_one_iff, UInt32.le_iff_toNat_le]
  show b.toUInt32.toNat ≤ 127
  rw [UInt8.toNat_toUInt32]
  omega

/-- An ASCII character is its own byte. -/
theorem bytes_ascii {bs : List UInt8} (h : ∀ b ∈ bs, b.toNat < 128) :
    bytes (.ofList (bs.map Char.ofUInt8)) = bs := by
  have hencode : (bs.map Char.ofUInt8).utf8Encode.data.toList = bs := by
    induction bs with
    | nil => rfl
    | cons b bs ih =>
      obtain ⟨hb, hrest⟩ := List.forall_mem_cons.1 h
      have hbyte : (Char.ofUInt8 b).val.toUInt8 = b := by
        show b.toUInt32.toUInt8 = b
        simp
      rw [List.map_cons, List.utf8Encode_cons, List.utf8Encode_singleton,
        String.utf8EncodeChar_eq_singleton (utf8Size_ofUInt8 hb), hbyte, ByteArray.data_append,
        Array.toList_append, List.toList_data_toByteArray, ih hrest, List.singleton_append]
  rw [bytes, String.toUTF8, String.toByteArray_ofList, hencode]

end Text

/-! ### The symbols of a text -/

namespace Payload

/-- The base64 form of a text. -/
def encodeBase64 (s : String) : String :=
  .ofList ((Base64.encode (Text.bytes s)).map Char.ofUInt8)

/-- A written text is of ASCII characters that are not blank. -/
theorem symbol_of_mem_encode {bs : List UInt8} {b : UInt8} (h : b ∈ Base64.encode bs) :
    b.toNat < 128 ∧ Text.isBlank (Char.ofUInt8 b) = false := by
  have hsymbol : ∀ v < 64, (Base64.symbol v).toNat < 128 ∧
      Text.isBlank (Char.ofUInt8 (Base64.symbol v)) = false := by
    decide +kernel
  by_cases hne : bs = []
  · subst hne
    cases h
  · obtain ⟨w, rfl⟩ := Base64.exists_written hne
    rw [w.encode_bytes] at h
    obtain ⟨v, hv, rfl⟩ | rfl := w.of_mem_symbols h
    · exact hsymbol v hv
    · exact ⟨by decide, rfl⟩

theorem bytes_encodeBase64 (s : String) :
    Text.bytes (encodeBase64 s) = Base64.encode (Text.bytes s) :=
  Text.bytes_ascii fun _ hb => (symbol_of_mem_encode hb).1

/-- The characters of a base64 form are symbols. -/
theorem of_mem_encodeBase64 {s : String} {c : Char} (h : c ∈ (encodeBase64 s).toList) :
    c.utf8Size = 1 ∧ Text.isBlank c = false := by
  rw [encodeBase64, String.toList_ofList] at h
  obtain ⟨b, hb, rfl⟩ := List.mem_map.1 h
  obtain ⟨hascii, hblank⟩ := symbol_of_mem_encode hb
  exact ⟨Text.utf8Size_ofUInt8 hascii, hblank⟩

theorem withoutBlanks_encodeBase64 (s : String) :
    Text.withoutBlanks (encodeBase64 s) = encodeBase64 s := by
  have hfilter : (encodeBase64 s).toList.filter (fun c => !Text.isBlank c) =
      (encodeBase64 s).toList := by
    rw [List.filter_eq_self]
    intro c hc
    rw [(of_mem_encodeBase64 hc).2]
    rfl
  rw [Text.withoutBlanks, hfilter, String.ofList_toList]

/-- **A text is read from base64 just where it is written there, blanks aside.** -/
theorem decodeBase64_eq_ok_iff {text s : String} :
    decodeBase64 text = .ok s ↔ Text.withoutBlanks text = encodeBase64 s := by
  have hutf8 : decodeBase64 text = .ok s ↔
      ∃ bs, Base64.decode (Text.bytes (Text.withoutBlanks text)) = .ok bs ∧ bs = Text.bytes s := by
    rw [decodeBase64, Except.bind_eq_ok_iff]
    refine exists_congr fun bs => ?_
    rw [Except.mapError_eq_ok_iff, ← Text.fromUTF8?_eq_some_iff]
    refine and_congr_right fun _ => ?_
    cases String.fromUTF8? ⟨bs.toArray⟩ with
    | none => exact ⟨nofun, nofun⟩
    | some decoded => exact ⟨fun h => congrArg some (Except.ok.inj h),
        fun h => congrArg Except.ok (Option.some.inj h)⟩
  rw [hutf8]
  simp only [exists_eq_right, Base64.decode_eq_ok_iff, ← bytes_encodeBase64]
  exact Text.bytes_injective.eq_iff

/-- **Base64 is read exactly.** A text is read as `s` if and only if it is the base64 form of `s`
but for blanks. So every text is read back from its base64 form, and another text is read as the
same one just where the two differ in blanks alone. -/
theorem decodeBase64_exact (text s : String) :
    (decodeBase64 text = .ok s ↔ Text.withoutBlanks text = encodeBase64 s) ∧
      decodeBase64 (encodeBase64 s) = .ok s ∧
      (decodeBase64 text = .ok s → ∀ other, decodeBase64 other = .ok s ↔
        Text.withoutBlanks other = Text.withoutBlanks text) := by
  refine ⟨decodeBase64_eq_ok_iff, decodeBase64_eq_ok_iff.2 (withoutBlanks_encodeBase64 s), ?_⟩
  intro h other
  rw [decodeBase64_eq_ok_iff, decodeBase64_eq_ok_iff.1 h]

example : encodeBase64 "Hello, World!" = "SGVsbG8sIFdvcmxkIQ==" := by decide

end Payload

end MarkdownEdits
