import MarkdownEdits.Proofs.JsonDoubles

/-!
# Printed JSON read back

A reader meets its text in front of whatever may follow a value (`Reads`). Printed arrays and objects
are an item with the rest of the bracket behind it (`Continues`), so that one lemma about the loop
over items serves both brackets and both ways of printing. The compact and the indented text of a
value are read back as the value with its members sorted, up to the doubles in it.
-/

namespace MarkdownEdits.Json

/-! ### Blanks -/

/-- Characters between the parts of a text that carry no meaning. -/
def IsGap (gap : List Char) : Prop := ∀ c ∈ gap, isSpace c = true

theorem isGap_nil : IsGap [] := nofun

theorem isGap_space : IsGap [' '] := by
  simp [IsGap, isSpace]

theorem isGap_newLine (level : Nat) : IsGap (newLine level) := by
  intro c hc
  rcases List.mem_cons.1 hc with rfl | hc
  · rfl
  · rw [List.eq_of_mem_replicate hc]
    rfl

theorem skipSpaces_gap {gap : List Char} (h : IsGap gap) (cs : List Char) :
    skipSpaces (gap ++ cs) = skipSpaces cs :=
  List.dropWhile_append_of_pos h

theorem skipSpaces_cons {c : Char} (h : isSpace c = false) (cs : List Char) :
    skipSpaces (c :: cs) = c :: cs := by
  simp [skipSpaces, h]

theorem value?_gap (depth : Nat) {gap : List Char} (h : IsGap gap) (cs : List Char) :
    value? depth (gap ++ cs) = value? depth cs := by
  cases depth <;> simp only [value?, skipSpaces_gap h]

theorem Follows.gap_append {gap rest : List Char} (hgap : IsGap gap) (h : Follows rest) :
    Follows (gap ++ rest) := by
  cases gap with
  | nil => exact h
  | cons c gap =>
    rintro d ⟨⟩
    exact .inl (hgap c List.mem_cons_self)

theorem follows_comma (rest : List Char) : Follows (',' :: rest) := by
  rintro c ⟨⟩
  exact .inr (.inl rfl)

/-! ### Items in brackets -/

variable {α : Type} {item : List Char → Option (α × List Char)} {close : Char}

/-- The reader takes the value off the front of the text, whatever follows that may follow it. -/
def Reads (item : List Char → Option (α × List Char)) (text : List Char) (a : α) : Prop :=
  ∀ rest, Follows rest → item (text ++ rest) = some (a, rest)

theorem Reads.gap_append {depth : Nat} {gap text : List Char} {v : Json} (hgap : IsGap gap)
    (h : Reads (value? depth) text v) : Reads (value? depth) (gap ++ text) v := by
  intro rest hrest
  rw [List.append_assoc, value?_gap depth hgap, h rest hrest]

/-- A closing bracket. -/
def IsClosing (c : Char) : Prop := c = ']' ∨ c = '\x7d'

theorem IsClosing.isSpace_eq_false (h : IsClosing close) : isSpace close = false := by
  rcases h with rfl | rfl <;> rfl

theorem IsClosing.ne_comma (h : IsClosing close) : close ≠ ',' := by
  rcases h with rfl | rfl <;> decide

theorem IsClosing.follows (h : IsClosing close) (rest : List Char) : Follows (close :: rest) := by
  rintro c ⟨⟩
  exact .inr (.inr h)

/-- What stands behind an item up to its closing bracket: further items, a comma before each. -/
inductive Continues (item : List Char → Option (α × List Char)) (close : Char) :
    List Char → List α → Prop
  | stop {gap : List Char} (hgap : IsGap gap) : Continues item close (gap ++ [close]) []
  | more {text tail : List Char} {a : α} {as : List α} (h : Reads item text a)
      (ht : Continues item close tail as) : Continues item close (',' :: (text ++ tail)) (a :: as)

namespace Continues

variable {text tail : List Char} {a : α} {as : List α}

theorem follows (h : Continues item close tail as) (hclose : IsClosing close) (rest : List Char) :
    Follows (tail ++ rest) := by
  cases h with
  | stop hgap =>
    rw [List.append_assoc]
    exact (hclose.follows rest).gap_append hgap
  | more => exact follows_comma _

theorem length_lt (h : Continues item close tail as) : as.length < tail.length := by
  induction h with
  | stop => simp
  | more _ _ ih =>
    simp only [List.length_cons, List.length_append]
    omega

/-- **The loop over items takes all of them.** -/
theorem sequence (ht : Continues item close tail as) (h : Reads item text a)
    (hclose : IsClosing close) {fuel : Nat} (hfuel : as.length < fuel) (rest : List Char) :
    Json.sequence item close fuel (text ++ (tail ++ rest)) = some (a :: as, rest) := by
  induction ht generalizing text a fuel with
  | @stop gap hgap =>
    obtain ⟨fuel, rfl⟩ : ∃ n, fuel = n + 1 := ⟨fuel - 1, by omega⟩
    have hread := h _ ((stop hgap : Continues item close _ []).follows hclose rest)
    have hskip : skipSpaces (gap ++ [close] ++ rest) = close :: rest := by
      rw [List.append_assoc, skipSpaces_gap hgap]
      exact skipSpaces_cons hclose.isSpace_eq_false rest
    rw [Json.sequence, hread]
    simp only [Option.bind_eq_bind, Option.bind_some, hskip]
    split
    · next heq => exact absurd (List.cons.inj heq).1 hclose.ne_comma
    · next heq =>
      obtain ⟨rfl, rfl⟩ := List.cons.inj heq
      rw [if_pos rfl]
      rfl
    · next heq => cases heq
  | @more text' tail a' as h' ht ih =>
    obtain ⟨fuel, rfl⟩ : ∃ n, fuel = n + 1 := ⟨fuel - 1, by omega⟩
    have hread := h _ ((more h' ht).follows hclose rest)
    have hrest := ih h' (Nat.lt_of_succ_lt_succ hfuel)
    have hskip : skipSpaces (',' :: (text' ++ tail) ++ rest) = ',' :: (text' ++ (tail ++ rest)) := by
      rw [List.cons_append, List.append_assoc]
      exact skipSpaces_cons rfl _
    rw [Json.sequence, hread]
    simp only [Option.bind_eq_bind, Option.bind_some, hskip, hrest]
    rfl

end Continues

/-- No item starts with the closing bracket, and none is empty. -/
def Refuses (item : List Char → Option (α × List Char)) (close : Char) : Prop :=
  ∀ cs, (∀ c ∈ (skipSpaces cs).head?, c = close) → item cs = none

/-- Items in brackets are read, given the first and what stands behind it. -/
theorem Continues.delimited {text tail : List Char} {a : α} {as : List α}
    (ht : Continues item close tail as) (h : Reads item text a) (hclose : IsClosing close)
    (hrefuses : Refuses item close) (rest : List Char) :
    Json.delimited item close (text ++ (tail ++ rest)) = some (a :: as, rest) := by
  have hread := h _ (ht.follows hclose rest)
  have hlength := ht.length_lt
  -- the text is not empty and does not start with the bracket, or no item could have been read
  have hstart : ¬ ∀ c ∈ (skipSpaces (text ++ (tail ++ rest))).head?, c = close := fun hall => by
    rw [hrefuses _ hall] at hread
    cases hread
  rw [Json.delimited]
  split
  · next heq => exact absurd (by simp [heq]) hstart
  · next c cs heq =>
    have hne : c ≠ close := fun h => hstart (by simp [heq, h])
    rw [if_neg hne]
    exact ht.sequence h hclose (by simp only [List.length_append]; omega) rest

/-! ### Values -/

/-- Without an opening bracket at its front a text can only hold a scalar. -/
theorem value?_of_not_opening (depth : Nat) {cs : List Char}
    (h : ∀ c ∈ (skipSpaces cs).head?, c ≠ '[' ∧ c ≠ '\x7b') :
    value? depth cs = scalar? (skipSpaces cs) := by
  cases depth with
  | zero => rfl
  | succ depth =>
    rw [value?]
    split
    · next heq => exact absurd rfl (h _ (by rw [heq]; rfl)).1
    · next heq => exact absurd rfl (h _ (by rw [heq]; rfl)).2
    · rfl

theorem scalar?_closing {c : Char} (h : IsClosing c) (cs : List Char) :
    scalar? (c :: cs) = none := by
  rcases h with rfl | rfl <;> rfl

theorem refuses_value? (depth : Nat) (hclose : IsClosing close) :
    Refuses (value? depth) close := by
  intro cs h
  have hne : close ≠ '[' ∧ close ≠ '\x7b' := by
    rcases hclose with rfl | rfl <;> decide
  rw [value?_of_not_opening depth fun c hc => h c hc ▸ hne]
  cases hcs : skipSpaces cs with
  | nil => rfl
  | cons c rest =>
    rw [hcs] at h
    rw [h c rfl]
    exact scalar?_closing hclose rest

theorem refuses_namedValue {value : List Char → Option (Json × List Char)}
    (hclose : IsClosing close) : Refuses (namedValue value) close := by
  intro cs h
  rw [namedValue]
  split
  · next heq =>
    rw [heq] at h
    have hquote := h '"' rfl
    rcases hclose with rfl | rfl <;> cases hquote
  · rfl

/-- A member is read, given that its value is. -/
theorem Reads.namedValue {value : List Char → Option (Json × List Char)} {gap text : List Char}
    {v : Json} (hgap : IsGap gap) (name : String) (h : Reads value text v) :
    Reads (Json.namedValue value) (gap ++ quote name ++ ':' :: text) (name, v) := by
  intro rest hrest
  have hskip : skipSpaces (gap ++ quote name ++ ':' :: text ++ rest) =
      '"' :: (name.toList.flatMap escape ++ '"' :: ':' :: (text ++ rest)) := by
    rw [List.append_assoc, List.append_assoc, skipSpaces_gap hgap, quote_append]
    exact skipSpaces_cons rfl _
  rw [Json.namedValue, hskip]
  simp only [stringBody_quoted, Option.bind_eq_bind, Option.bind_some,
    skipSpaces_cons (show isSpace ':' = false from rfl), h rest hrest, String.ofList_toList]
  rfl

section Scalars

variable (depth : Nat)

theorem reads_string (s : String) : Reads (value? depth) (quote s) (.string s) := by
  intro rest _
  have hskip : skipSpaces (quote s ++ rest) =
      '"' :: (s.toList.flatMap escape ++ '"' :: rest) := by
    rw [quote_append]
    exact skipSpaces_cons rfl _
  rw [value?_of_not_opening depth fun c hc => by
    rw [hskip] at hc; cases hc; exact ⟨by decide, by decide⟩, hskip]
  simp [scalar?, stringBody_quoted]

/-- The text of a number starts with a minus sign or a digit. -/
theorem head?_text {x : JsonNumber} (hx : IsNumber x) :
    ∃ c cs, x.text.toList = c :: cs ∧ (c = '-' ∨ isDigit c = true) := by
  have hread : number? (x.text.toList ++ []) = some (rereadNumber x, []) :=
    number?_text_append hx nofun
  rw [List.append_nil] at hread
  cases hcs : x.text.toList with
  | nil =>
    rw [hcs] at hread
    cases hread
  | cons c cs =>
    refine ⟨c, cs, rfl, Decidable.byContradiction fun hnone => ?_⟩
    obtain ⟨hminus, hdigit⟩ := not_or.1 hnone
    have htake : (c :: cs).takeWhile isDigit = [] := by
      simp [hdigit]
    rw [hcs, number?.eq_2 _ fun _ heq => hminus (List.cons.inj heq).1] at hread
    simp [magnitude?, htake] at hread

theorem reads_number {x : JsonNumber} (hx : IsNumber x) :
    Reads (value? depth) x.text.toList (.number (rereadNumber x)) := by
  intro rest hrest
  obtain ⟨c, cs, htext, hc⟩ := head?_text hx
  have hother : ∀ d : Char, d ≠ '-' → isDigit d = false → c ≠ d := by
    rintro d hminus hdigit rfl
    rcases hc with rfl | hc
    · exact hminus rfl
    · rw [hdigit] at hc
      cases hc
  have hspace : isSpace c = false := by
    simp only [isSpace, Bool.or_eq_false_iff, beq_eq_false_iff_ne]
    exact ⟨⟨⟨hother _ (by decide) (by decide), hother _ (by decide) (by decide)⟩,
      hother _ (by decide) (by decide)⟩, hother _ (by decide) (by decide)⟩
  have hskip : skipSpaces (x.text.toList ++ rest) = x.text.toList ++ rest := by
    rw [htext]
    exact skipSpaces_cons hspace _
  rw [value?_of_not_opening depth fun d hd => ?_, hskip]
  · rw [scalar?.eq_5, number?_text_append hx hrest]
    · rfl
    all_goals
      intro tail heq
      rw [htext] at heq
      exact hother _ (by decide) (by decide) (List.cons.inj heq).1
  · rw [hskip, htext] at hd
    cases hd
    exact ⟨hother _ (by decide) (by decide), hother _ (by decide) (by decide)⟩

theorem reads_null : Reads (value? depth) (scalarChars .null) .null := by
  intro rest _
  cases depth <;> rfl

theorem reads_bool (b : Bool) : Reads (value? depth) (scalarChars (.bool b)) (.bool b) := by
  intro rest _
  cases b <;> cases depth <;> rfl

theorem reads_nil_array : Reads (value? (depth + 1)) (scalarChars (.array [])) (.array []) := by
  intro rest _
  rfl

theorem reads_nil_object : Reads (value? (depth + 1)) (scalarChars (.object [])) (.object []) := by
  intro rest _
  rfl

end Scalars

section Brackets

variable {depth : Nat} {text tail : List Char}

/-- An array is read, given its first item and what stands behind it. -/
theorem Continues.reads_array {v : Json} {vs : List Json}
    (ht : Continues (value? depth) ']' tail vs) (h : Reads (value? depth) text v) :
    Reads (value? (depth + 1)) ('[' :: (text ++ tail)) (.array (v :: vs)) := by
  intro rest _
  have hdelimited := ht.delimited h (.inl rfl) (refuses_value? depth (.inl rfl)) rest
  rw [value?, List.cons_append, List.append_assoc, skipSpaces_cons rfl]
  simp only [hdelimited]
  rfl

/-- An object is read, given its first member and what stands behind it. -/
theorem Continues.reads_object {m : String × Json} {ms : List (String × Json)}
    (ht : Continues (Json.namedValue (value? depth)) '\x7d' tail ms)
    (h : Reads (Json.namedValue (value? depth)) text m) :
    Reads (value? (depth + 1)) ('\x7b' :: (text ++ tail)) (.object (sortMembers (m :: ms))) := by
  intro rest _
  have hdelimited := ht.delimited h (.inr rfl) (refuses_namedValue (.inr rfl)) rest
  rw [value?, List.cons_append, List.append_assoc, skipSpaces_cons rfl]
  simp only [hdelimited]
  rfl

end Brackets

/-! ### Printed values -/

mutual

/-- A value that has a text: arrays and objects nest no deeper than `depth`, and every number is one
that JSON has. -/
def Printable : Json → Nat → Prop
  | .number x, _ => IsNumber x
  | .array _, 0 | .object _, 0 => False
  | .array vs, depth + 1 => PrintableItems vs depth
  | .object ms, depth + 1 => PrintableMembers ms depth
  | _, _ => True

def PrintableItems : List Json → Nat → Prop
  | [], _ => True
  | v :: vs, depth => v.Printable depth ∧ PrintableItems vs depth

def PrintableMembers : List (String × Json) → Nat → Prop
  | [], _ => True
  | (_, v) :: ms, depth => v.Printable depth ∧ PrintableMembers ms depth

end

mutual

/-- What the text of a value is read as: members are sorted, and doubles read once more. -/
def reread : Json → Json
  | .number x => .number (rereadNumber x)
  | .array vs => .array (rereadItems vs)
  | .object ms => .object (sortMembers (rereadMembers ms))
  | v => v

def rereadItems : List Json → List Json
  | [] => []
  | v :: vs => v.reread :: rereadItems vs

def rereadMembers : List (String × Json) → List (String × Json)
  | [] => []
  | (n, v) :: ms => (n, v.reread) :: rereadMembers ms

end

theorem rereadMembers_eq_map (ms : List (String × Json)) :
    rereadMembers ms = ms.map fun m => (m.1, m.2.reread) := by
  induction ms with
  | nil => rfl
  | cons m ms ih => rw [rereadMembers, ih, List.map_cons]

theorem reads_scalarChars {v : Json} {depth : Nat} (hv : v.Printable depth)
    (harray : ∀ w ws, v ≠ .array (w :: ws)) (hobject : ∀ m ms, v ≠ .object (m :: ms)) :
    Reads (value? depth) v.scalarChars v.reread := by
  cases v with
  | null => exact reads_null depth
  | bool b => exact reads_bool depth b
  | number x => exact reads_number depth hv
  | string s => exact reads_string depth s
  | array vs =>
    cases vs with
    | nil =>
      cases depth with
      | zero => exact hv.elim
      | succ depth => exact reads_nil_array depth
    | cons w ws => exact absurd rfl (harray w ws)
  | object ms =>
    cases ms with
    | nil =>
      cases depth with
      | zero => exact hv.elim
      | succ depth => exact reads_nil_object depth
    | cons m ms => exact absurd rfl (hobject m ms)

mutual

/-- **A value is read back from its compact text.** -/
theorem reads_compactChars (v : Json) {depth : Nat} (hv : v.Printable depth) :
    Reads (value? depth) v.compactChars v.reread := by
  match v, depth, hv with
  | .array (v :: vs), depth + 1, hv =>
    exact (continues_compactItems vs hv.2).reads_array (reads_compactChars v hv.1)
  | .object ((n, v) :: ms), depth + 1, hv =>
    have hmember := (reads_compactChars v hv.1).namedValue isGap_nil n
    exact (continues_compactMembers ms hv.2).reads_object hmember
  | .null, _, hv | .bool _, _, hv | .number _, _, hv | .string _, _, hv | .array [], _, hv
  | .object [], _, hv => exact reads_scalarChars hv nofun nofun

theorem continues_compactItems (vs : List Json) {depth : Nat} (hvs : PrintableItems vs depth) :
    Continues (value? depth) ']' (compactItems vs) (rereadItems vs) := by
  match vs, hvs with
  | [], _ => exact .stop isGap_nil
  | v :: vs, hvs => exact .more (reads_compactChars v hvs.1) (continues_compactItems vs hvs.2)

theorem continues_compactMembers (ms : List (String × Json)) {depth : Nat}
    (hms : PrintableMembers ms depth) :
    Continues (Json.namedValue (value? depth)) '\x7d' (compactMembers ms) (rereadMembers ms) := by
  match ms, hms with
  | [], _ => exact .stop isGap_nil
  | (n, v) :: ms, hms =>
    have hmember := (reads_compactChars v hms.1).namedValue isGap_nil n
    exact .more hmember (continues_compactMembers ms hms.2)

end

mutual

/-- **A value is read back from its indented text.** -/
theorem reads_indentedChars (v : Json) (level : Nat) {depth : Nat} (hv : v.Printable depth) :
    Reads (value? depth) (v.indentedChars level) v.reread := by
  match v, depth, hv with
  | .array (v :: vs), depth + 1, hv =>
    have hitem := (reads_indentedChars v (level + 1) hv.1).gap_append (isGap_newLine (level + 1))
    exact (continues_indentedItems vs level hv.2).reads_array hitem
  | .object ((n, v) :: ms), depth + 1, hv =>
    have hvalue := (reads_indentedChars v (level + 1) hv.1).gap_append isGap_space
    have hmember := hvalue.namedValue (isGap_newLine (level + 1)) n
    exact (continues_indentedMembers ms level hv.2).reads_object hmember
  | .null, _, hv | .bool _, _, hv | .number _, _, hv | .string _, _, hv | .array [], _, hv
  | .object [], _, hv => exact reads_scalarChars hv nofun nofun

theorem continues_indentedItems (vs : List Json) (level : Nat) {depth : Nat}
    (hvs : PrintableItems vs depth) :
    Continues (value? depth) ']' (indentedItems level vs) (rereadItems vs) := by
  match vs, hvs with
  | [], _ => exact .stop (isGap_newLine level)
  | v :: vs, hvs =>
    have hitem := (reads_indentedChars v (level + 1) hvs.1).gap_append (isGap_newLine (level + 1))
    exact .more hitem (continues_indentedItems vs level hvs.2)

theorem continues_indentedMembers (ms : List (String × Json)) (level : Nat) {depth : Nat}
    (hms : PrintableMembers ms depth) :
    Continues (Json.namedValue (value? depth)) '\x7d' (indentedMembers level ms)
      (rereadMembers ms) := by
  match ms, hms with
  | [], _ => exact .stop (isGap_newLine level)
  | (n, v) :: ms, hms =>
    have hvalue := (reads_indentedChars v (level + 1) hms.1).gap_append isGap_space
    have hmember := hvalue.namedValue (isGap_newLine (level + 1)) n
    exact .more hmember (continues_indentedMembers ms level hms.2)

end

/-- A text that is read, with blanks behind it, parses. -/
theorem Reads.parse? {text gap : List Char} {v : Json} (h : Reads (value? maxDepth) text v)
    (hgap : IsGap gap) : Json.parse? (.ofList (text ++ gap)) = some v := by
  have hfollows : Follows gap := fun c hc => .inl (hgap c (List.mem_of_mem_head? hc))
  have hrest : skipSpaces gap = [] := by
    have hskip := skipSpaces_gap hgap []
    rwa [List.append_nil] at hskip
  simp [Json.parse?, h gap hfollows, hrest]

/-! ### Exact values -/

mutual

/-- A value that can be written and read back: arrays and objects nest no deeper than `depth`, and
every number is an integer that a JSON number can hold. -/
def Fits : Json → Nat → Prop
  | .number x, _ => IsExact x
  | .array _, 0 | .object _, 0 => False
  | .array vs, depth + 1 => FitsItems vs depth
  | .object ms, depth + 1 => FitsMembers ms depth
  | _, _ => True

def FitsItems : List Json → Nat → Prop
  | [], _ => True
  | v :: vs, depth => v.Fits depth ∧ FitsItems vs depth

def FitsMembers : List (String × Json) → Nat → Prop
  | [], _ => True
  | (_, v) :: ms, depth => v.Fits depth ∧ FitsMembers ms depth

end

theorem fitsItems_iff {vs : List Json} {depth : Nat} :
    FitsItems vs depth ↔ ∀ v ∈ vs, v.Fits depth := by
  induction vs with
  | nil => simp [FitsItems]
  | cons v vs ih => simp [FitsItems, ih]

mutual

/-- A value that can be written and read back has a text, and sorting is all that reading does. -/
theorem Fits.printable (v : Json) {depth : Nat} (hv : v.Fits depth) :
    v.Printable depth ∧ v.reread = v.sorted := by
  match v, depth, hv with
  | .array vs, depth + 1, hv =>
    obtain ⟨hprintable, heq⟩ := FitsItems.printable vs hv
    exact ⟨hprintable, by rw [reread, heq, sorted]⟩
  | .object ms, depth + 1, hv =>
    obtain ⟨hprintable, heq⟩ := FitsMembers.printable ms hv
    exact ⟨hprintable, by rw [reread, heq, sorted]⟩
  | .number x, _, hv =>
    have heq : rereadNumber x = x := rereadNumber_of_isExact hv
    exact ⟨isNumber_of_isExact hv, by rw [reread, heq]; rfl⟩
  | .null, _, _ | .bool _, _, _ | .string _, _, _ => exact ⟨trivial, rfl⟩

theorem FitsItems.printable (vs : List Json) {depth : Nat} (hvs : FitsItems vs depth) :
    PrintableItems vs depth ∧ rereadItems vs = sortedItems vs := by
  match vs, hvs with
  | [], _ => exact ⟨trivial, rfl⟩
  | v :: vs, hvs =>
    obtain ⟨hv, heq⟩ := Fits.printable v hvs.1
    obtain ⟨hrest, heqRest⟩ := FitsItems.printable vs hvs.2
    exact ⟨⟨hv, hrest⟩, by rw [rereadItems, heq, heqRest, sortedItems]⟩

theorem FitsMembers.printable (ms : List (String × Json)) {depth : Nat}
    (hms : FitsMembers ms depth) :
    PrintableMembers ms depth ∧ rereadMembers ms = sortedMembers ms := by
  match ms, hms with
  | [], _ => exact ⟨trivial, rfl⟩
  | (n, v) :: ms, hms =>
    obtain ⟨hv, heq⟩ := Fits.printable v hms.1
    obtain ⟨hrest, heqRest⟩ := FitsMembers.printable ms hms.2
    exact ⟨⟨hv, hrest⟩, by rw [rereadMembers, heq, heqRest, sortedMembers]⟩

end

/-- **The compact text of a value, with blanks behind it, holds the value sorted.** -/
theorem parse?_compact_append {v : Json} (hv : v.Fits maxDepth) {gap : List Char}
    (hgap : IsGap gap) : parse? (v.compact ++ .ofList gap) = some v.sorted := by
  obtain ⟨hprintable, heq⟩ := hv.printable
  have h := (reads_compactChars v hprintable).parse? hgap
  rwa [String.ofList_append, heq] at h

/-- **The indented text of a value, with blanks behind it, holds the value sorted.** -/
theorem parse?_indented_append {v : Json} (hv : v.Fits maxDepth) {gap : List Char}
    (hgap : IsGap gap) : parse? (v.indented ++ .ofList gap) = some v.sorted := by
  obtain ⟨hprintable, heq⟩ := hv.printable
  have h := (reads_indentedChars v 0 hprintable).parse? hgap
  rwa [String.ofList_append, heq] at h

/-- A compact text that is printed as a line. -/
theorem parse?_compact {v : Json} (hv : v.Fits maxDepth) :
    parse? (v.compact ++ "\n") = some v.sorted :=
  parse?_compact_append hv (isGap_newLine 0)

/-- An indented text that is printed as a line. -/
theorem parse?_indented {v : Json} (hv : v.Fits maxDepth) :
    parse? (v.indented ++ "\n") = some v.sorted :=
  parse?_indented_append hv (isGap_newLine 0)

end MarkdownEdits.Json
