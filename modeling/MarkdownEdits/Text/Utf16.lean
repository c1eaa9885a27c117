/-!
# UTF-16 units

A document counts its text in UTF-16 code units. This module holds the units of a character and of
a text, and the length of a text in units; both turn appending into appending and adding.
-/

namespace MarkdownEdits.Text

/-- The code units of a character: itself on the basic plane, else a surrogate pair. -/
def charUnits (c : Char) : List UInt16 :=
  if c.toNat < 0x10000 then [c.toNat.toUInt16]
  else [(0xD800 + (c.toNat - 0x10000) / 0x400).toUInt16, (0xDC00 + (c.toNat - 0x10000) % 0x400).toUInt16]

/-- The code units of a text. -/
def utf16 (s : String) : List UInt16 := s.toList.flatMap charUnits

/-- The length of a text in code units. -/
def utf16Length (s : String) : Nat := (utf16 s).length

@[simp] theorem utf16_empty : utf16 "" = [] := rfl

@[simp] theorem utf16_append (s t : String) : utf16 (s ++ t) = utf16 s ++ utf16 t := by
  simp [utf16]

@[simp] theorem utf16Length_empty : utf16Length "" = 0 := rfl

@[simp] theorem utf16Length_append (s t : String) :
    utf16Length (s ++ t) = utf16Length s + utf16Length t := by
  simp [utf16Length]

theorem charUnits_ne_nil (c : Char) : charUnits c ≠ [] := by
  unfold charUnits; split <;> simp

theorem utf16Length_eq_zero_iff {s : String} : utf16Length s = 0 ↔ s = "" := by
  constructor
  · intro h
    have h : utf16 s = [] := List.eq_nil_of_length_eq_zero h
    rw [← String.toList_eq_nil_iff, List.eq_nil_iff_forall_not_mem]
    intro c hc
    exact charUnits_ne_nil c (List.flatMap_eq_nil_iff.1 h c hc)
  · rintro rfl; rfl

end MarkdownEdits.Text
