import MarkdownEdits.Proofs.Codec
import MarkdownEdits.Proofs.Extraction

/-!
# Recognised base64 decodes

A text is taken for base64 by its shape, and decoded group by group. Both judge the same symbols:
those that look right are values in groups with their padding (`fillsGroups_iff`), and nothing keeps
these from being decoded but bits that belong to no byte. So a text that is recognised is never at
fault in its symbols, its length or its padding, and what decodes is recognised, unless its lines
are not those of wrapped base64 (`looksLikeBase64_agrees`).
-/

namespace MarkdownEdits

/-! ### The shape of symbols -/

namespace Base64

/-- The symbol at `offset` stands right before the padding, and of its bits not all are zero that
belong to no byte. There are two such bits for each `=`. -/
def DiscardsBits (symbols : List UInt8) (byte : UInt8) (offset : Nat) : Prop :=
  ∃ v padding, symbols.drop offset = byte :: List.replicate padding pad ∧
    value? byte = some v ∧ v % 4 ^ padding ≠ 0

theorem exists_values {symbols : List UInt8} (h : ∀ b ∈ symbols, (value? b).isSome = true) :
    ∃ vs, AreValues vs ∧ symbols = vs.map symbol := by
  induction symbols with
  | nil => exact ⟨[], nofun, rfl⟩
  | cons b symbols ih =>
    obtain ⟨hb, hrest⟩ := List.forall_mem_cons.1 h
    obtain ⟨v, hvalue⟩ := Option.isSome_iff_exists.1 hb
    obtain ⟨hv, rfl⟩ := eq_symbol_of_value? hvalue
    obtain ⟨vs, hvs, rfl⟩ := ih hrest
    exact ⟨v :: vs, areValues_cons.2 ⟨hv, hvs⟩, rfl⟩

/-- Values and padding that are whole groups together: the last group is the one with the
padding. -/
theorem exists_inGroups {vs : List Nat} {padding : Nat} (hvs : AreValues vs) (hne : vs ≠ [])
    (hpadding : padding ≤ 2) (hlength : (vs.length + padding) % 4 = 0) :
    ∃ full last, InGroups (vs.map symbol ++ List.replicate padding pad) full last := by
  have hpos := List.length_pos_iff.2 hne
  have hlast : (vs.drop (vs.length + padding - 4)).length = 4 - padding := by
    rw [List.length_drop]
    omega
  refine ⟨vs.take (vs.length + padding - 4), vs.drop (vs.length + padding - 4), {
    areValues_full := fun v hv => hvs v (List.mem_of_mem_take hv)
    areValues_last := fun v hv => hvs v (List.mem_of_mem_drop hv)
    length_full := by rw [List.length_take]; omega
    two_le_length := by omega
    length_le_four := by omega
    symbols_eq := ?_ }⟩
  rw [hlast, Nat.sub_sub_self (by omega), ← List.append_assoc, ← List.map_append,
    List.take_append_drop]

section InGroups

variable {symbols : List UInt8} {full last init : List Nat} {v : Nat}

theorem InGroups.areValues (h : InGroups symbols full last) : AreValues (full ++ last) :=
  List.forall_mem_append.2 ⟨h.areValues_full, h.areValues_last⟩

/-- The values are what is left without the padding. -/
theorem InGroups.dropEndWhile_pad (h : InGroups symbols full last) :
    Text.dropEndWhile (· == pad) symbols = (full ++ last).map symbol := by
  have hpad : ∀ b ∈ List.replicate (4 - last.length) pad, (b == pad) = true := by
    intro b hb
    rw [List.eq_of_mem_replicate hb, beq_self_eq_true]
  rw [h.symbols_eq, ← List.append_assoc, Text.dropEndWhile_append_of_pos hpad, ← List.map_append,
    Text.dropEndWhile_eq_self]
  intro b hb
  obtain ⟨v, hv, rfl⟩ := List.mem_map.1 hb
  rw [beq_eq_false_iff_ne]
  exact symbol_ne_pad (h.areValues v hv)

/-- Bits left over are bits of the last symbol. -/
theorem InGroups.discardsBits (h : InGroups symbols full (init ++ [v]))
    (hleft : v % 4 ^ (3 - init.length) ≠ 0) :
    DiscardsBits symbols (symbol v) (full.length + init.length) := by
  have hsymbols : symbols = (full ++ init).map symbol ++
      symbol v :: List.replicate (3 - init.length) pad := by
    rw [h.symbols_eq, List.length_append, List.length_singleton, Nat.add_comm, Nat.sub_add_eq]
    simp
  refine ⟨v, 3 - init.length, ?_, value?_symbol ?_, hleft⟩
  · rw [hsymbols, List.drop_left' (by rw [List.length_map, List.length_append])]
  · exact h.areValues_last v (List.mem_append_right _ (List.mem_singleton_self v))

end InGroups

end Base64

namespace Payload

open Text

section Shape

variable {symbols : List UInt8}

/-- **The shape that is looked for** is that of values in groups with their padding. -/
theorem fillsGroups_iff :
    fillsGroups symbols = true ↔ ∃ full last, Base64.InGroups symbols full last := by
  simp only [fillsGroups, Bool.and_eq_true, beq_iff_eq, decide_eq_true_eq, Bool.not_eq_true',
    List.isEmpty_eq_false_iff, List.all_eq_true]
  constructor
  · rintro ⟨⟨⟨hmod, hpadding⟩, hne⟩, hsymbols⟩
    obtain ⟨vs, hvs, hbody⟩ := Base64.exists_values hsymbols
    have hsplit : symbols = vs.map Base64.symbol ++ takeEndWhile (· == Base64.pad) symbols := by
      rw [← hbody, takeEndWhile_append_dropEndWhile]
    have hpads : takeEndWhile (· == Base64.pad) symbols =
        List.replicate (takeEndWhile (· == Base64.pad) symbols).length Base64.pad := by
      rw [List.eq_replicate_iff, and_iff_right rfl]
      intro b hb
      have hpad := List.mem_takeWhile_imp (List.mem_reverse.1 hb)
      exact beq_iff_eq.1 hpad
    have hlength := congrArg List.length hsplit
    rw [List.length_append, List.length_map] at hlength
    rw [hbody, List.length_map] at hpadding
    rw [hpads] at hsplit
    rw [hsplit]
    refine Base64.exists_inGroups hvs ?_ (by omega) (by omega)
    rintro rfl
    exact hne hbody
  · rintro ⟨full, last, h⟩
    have hgroups := h.length_full
    have htwo := h.two_le_length
    rw [h.dropEndWhile_pad, h.length_symbols, List.length_map, List.length_append]
    refine ⟨⟨⟨by omega, by omega⟩, ?_⟩, fun b hb => ?_⟩
    · rw [← List.length_pos_iff, List.length_map, List.length_append]
      omega
    · obtain ⟨v, hv, rfl⟩ := List.mem_map.1 hb
      rw [Base64.value?_symbol (h.areValues v hv)]
      rfl

theorem fillsGroups_of_decode {bytes : List UInt8} (h : Base64.decode symbols = .ok bytes)
    (hne : symbols ≠ []) : fillsGroups symbols = true := by
  obtain ⟨w, rfl, -⟩ := Base64.exists_written_of_decode h hne
  exact fillsGroups_iff.2 ⟨_, _, w.inGroups⟩

theorem uniformWidth_of_length_le_one {widths : List Nat} (h : widths.length ≤ 1) :
    uniformWidth widths = true := by
  match widths with
  | [] => rfl
  | [width] => rfl
  | _ :: _ :: _ => simp at h

end Shape

/-! ### Recognising and decoding -/

section Decode

variable {text : String}

/-- Decoding gets as far as bytes, be they those of a text or not. -/
theorem decodeBase64_ok_or_notUtf8_iff :
    (∃ s, decodeBase64 text = .ok s) ∨ decodeBase64 text = .error .notUtf8 ↔
      ∃ bytes, Base64.decode (Text.bytes (withoutBlanks text)) = .ok bytes := by
  rw [decodeBase64]
  cases Base64.decode (Text.bytes (withoutBlanks text)) with
  | error fault => simp [Except.mapError, bind, Except.bind]
  | ok bytes =>
    simp only [Except.mapError, bind, Except.bind, pure, Except.pure]
    cases String.fromUTF8? ⟨bytes.toArray⟩ <;> simp

theorem decodeBase64_of_fault {fault : Base64.Fault}
    (h : Base64.decode (Text.bytes (withoutBlanks text)) = .error fault) :
    decodeBase64 text = .error (.invalidBase64 fault) := by
  rw [decodeBase64, h]
  rfl

end Decode

/-- **What is recognised decodes, and what decodes is recognised.** A text that looks like base64
either decodes, to a text or to bytes that are none, or has bits in its last symbol that belong to no
byte; it has no other fault. The other way round, a text that decodes to a text or to other bytes
looks like base64 if it is not blank and all of it stands on one line. -/
theorem looksLikeBase64_agrees (text : String) :
    (looksLikeBase64 text = true →
      (∃ s, decodeBase64 text = .ok s) ∨ decodeBase64 text = .error .notUtf8 ∨
        ∃ byte offset,
          decodeBase64 text = .error (.invalidBase64 (.invalidLastSymbol byte offset)) ∧
            Base64.DiscardsBits (Text.bytes (withoutBlanks text)) byte offset) ∧
    (((lines text.toList).filter fun line => !line.isEmpty).length ≤ 1 → ¬ IsBlankText text →
      (∃ s, decodeBase64 text = .ok s) ∨ decodeBase64 text = .error .notUtf8 →
      looksLikeBase64 text = true) := by
  constructor
  · intro hlooks
    rw [looksLikeBase64, Bool.and_eq_true] at hlooks
    obtain ⟨full, last, hgroups⟩ := fillsGroups_iff.1 hlooks.1
    obtain ⟨init, v, rfl, -, -⟩ := hgroups.exists_concat
    have hdecode := hgroups.decode_concat
    rw [← or_assoc, decodeBase64_ok_or_notUtf8_iff]
    split at hdecode
    · exact .inl ⟨_, hdecode⟩
    · next hleft =>
      exact .inr ⟨_, _, decodeBase64_of_fault hdecode, hgroups.discardsBits hleft⟩
  · intro hlines hblank hdecode
    obtain ⟨bytes, hbytes⟩ := decodeBase64_ok_or_notUtf8_iff.1 hdecode
    have hne : Text.bytes (withoutBlanks text) ≠ [] :=
      bytes_ne_nil fun hempty => hblank (withoutBlanks_eq_empty_iff.1 hempty)
    rw [looksLikeBase64, Bool.and_eq_true]
    exact ⟨fillsGroups_of_decode hbytes hne,
      uniformWidth_of_length_le_one (by rwa [List.length_map])⟩

/-- In `QR==` the lowest bit of `R` belongs to no byte; the one byte of `/w==` is no text. -/
theorem looksLikeBase64_agrees_on_last_symbols :
    looksLikeBase64 "QR==" = true ∧
    (∃ byte offset,
      decodeBase64 "QR==" = .error (.invalidBase64 (.invalidLastSymbol byte offset)) ∧
        Base64.DiscardsBits (Text.bytes (withoutBlanks "QR==")) byte offset) ∧
    ((lines " /w==\n".toList).filter fun line => !line.isEmpty).length ≤ 1 ∧
    ¬ IsBlankText " /w==\n" ∧ decodeBase64 " /w==\n" = .error .notUtf8 ∧
    looksLikeBase64 " /w==\n" = true := by
  have hlooks : looksLikeBase64 "QR==" = true := by decide
  have hdecode : decodeBase64 "QR==" = .error (.invalidBase64 (.invalidLastSymbol 82 1)) := by
    decide
  have hline : ((lines " /w==\n".toList).filter fun line => !line.isEmpty).length ≤ 1 := by decide
  have hblank : ¬ IsBlankText " /w==\n" := fun h => absurd (h '/' (by decide)) (by decide)
  have hbytes : decodeBase64 " /w==\n" = .error .notUtf8 := by decide
  refine ⟨hlooks, ?_, hline, hblank, hbytes,
    (looksLikeBase64_agrees " /w==\n").2 hline hblank (.inr hbytes)⟩
  obtain ⟨s, hs⟩ | hs | hdiscards := (looksLikeBase64_agrees "QR==").1 hlooks
  · rw [hdecode] at hs
    cases hs
  · rw [hdecode] at hs
    cases hs
  · exact hdiscards

end Payload

end MarkdownEdits
