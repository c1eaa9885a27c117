import Mathlib.Data.Nat.PSub
import MarkdownEdits.Event.Block
import MarkdownEdits.Proofs.Sequencing

/-!
# Counters of open elements

A run in the making counts the elements that are open in it, and each end takes one from a count.
Ends may come without starts. Whatever a run is told, its counts are such that there is one to take
from where it takes one (`InlineBuilder.foldlM_call?`), and so it is with the runs that the blocks
hold (`OpenBlock.stop?_eq_some`).
-/

namespace MarkdownEdits

/-! ### Runs -/

namespace InlineBuilder

/-- What a run in the making may be told. -/
inductive Call
  | start (tag : Tag) (source : String)
  | stop
  | leaf (l : Leaf) (source : String)
  | text (text : String)
  | separator

def call (b : InlineBuilder) : Call → InlineBuilder
  | .start tag source => b.start tag source
  | .stop => b.stop
  | .leaf l source => b.leaf l source
  | .text text => b.pushText text
  | .separator => b.pushSeparator

/-- The run that has been told the calls, and nothing else. -/
def ofCalls (calls : List Call) : InlineBuilder := calls.foldl call {}

/-- What holds of the counts of a run. -/
structure Sound (b : InlineBuilder) : Prop where
  /-- A span and an element that is kept as its source are not open together. -/
  exclusive : b.span = none ∨ b.sourceDepth = 0
  /-- An open span counts itself. -/
  counted : ∀ s ∈ b.span, 1 ≤ s.depth

variable {b : InlineBuilder}

theorem sound_empty : Sound {} := ⟨.inl rfl, nofun⟩

theorem inSource_iff : b.inSource = true ↔ 0 < b.sourceDepth := decide_eq_true_iff

namespace Sound

/-- What changes only the tokens and the text of the span keeps the counts. -/
theorem of_counts_eq (h : b.Sound) {b' : InlineBuilder} (hsource : b'.sourceDepth = b.sourceDepth)
    (hspan : b'.span.map OpenSpan.depth = b.span.map OpenSpan.depth) : b'.Sound where
  exclusive := by
    rw [hsource]
    refine h.exclusive.imp_left fun hnone => ?_
    rw [hnone] at hspan
    exact Option.map_eq_none_iff.1 hspan
  counted s hs := by
    rw [Option.mem_def.1 hs] at hspan
    obtain ⟨s', hs', hdepth⟩ := Option.map_eq_some_iff.1 hspan.symm
    exact hdepth ▸ h.counted s' hs'

theorem pushText (h : b.Sound) (text : String) : (b.pushText text).Sound := by
  unfold InlineBuilder.pushText
  split
  · next s hs => exact h.of_counts_eq rfl (by rw [hs]; rfl)
  · exact h.of_counts_eq rfl rfl

theorem pushSource (h : b.Sound) (inner source : String) : (b.pushSource inner source).Sound := by
  unfold InlineBuilder.pushSource
  split
  · next s hs => exact h.of_counts_eq rfl (by rw [hs]; rfl)
  · exact h.of_counts_eq rfl rfl

theorem pushSeparator (h : b.Sound) : b.pushSeparator.Sound := by
  unfold InlineBuilder.pushSeparator
  split
  · exact h
  · exact h.pushText " "

theorem leaf (h : b.Sound) (l : Leaf) (source : String) : (b.leaf l source).Sound := by
  unfold InlineBuilder.leaf
  split
  · exact h
  · split
    · exact h.pushText _
    · exact h.pushText _
    · exact h.pushSource _ _
    · exact h.pushSource _ _
    · exact h.pushSource _ _

theorem start (h : b.Sound) (tag : Tag) (source : String) : (b.start tag source).Sound := by
  unfold InlineBuilder.start
  split
  · next hin =>
    -- inside an element that is kept as its source no span is open
    have hnone := h.exclusive.resolve_right (Nat.ne_of_gt (inSource_iff.1 hin))
    exact ⟨.inl hnone, h.counted⟩
  · next hout =>
    have hzero : b.sourceDepth = 0 := Nat.eq_zero_of_not_pos fun hpos => hout (inSource_iff.2 hpos)
    split
    · next s hs =>
      refine ⟨.inr hzero, ?_⟩
      rintro s' ⟨⟩
      exact Nat.le_add_left 1 s.depth
    · next hnone =>
      split
      · refine ⟨.inr hzero, ?_⟩
        rintro s' ⟨⟩
        exact le_rfl
      · exact ⟨.inl hnone, h.counted⟩

theorem stop (h : b.Sound) : b.stop.Sound := by
  unfold InlineBuilder.stop
  split
  · next hin =>
    have hnone := h.exclusive.resolve_right (Nat.ne_of_gt (inSource_iff.1 hin))
    exact ⟨.inl hnone, h.counted⟩
  · next hout =>
    have hzero : b.sourceDepth = 0 := Nat.eq_zero_of_not_pos fun hpos => hout (inSource_iff.2 hpos)
    split
    · split
      · exact ⟨.inl rfl, nofun⟩
      · next hleft =>
        refine ⟨.inr hzero, ?_⟩
        rintro s' ⟨⟩
        exact Nat.one_le_iff_ne_zero.2 hleft
    · exact h

/-- **What a run is told keeps its counts sound.** -/
theorem call (h : b.Sound) (c : Call) : (b.call c).Sound := by
  cases c with
  | start tag source => exact h.start tag source
  | stop => exact h.stop
  | leaf l source => exact h.leaf l source
  | text text => exact h.pushText text
  | separator => exact h.pushSeparator

theorem foldl_call (h : b.Sound) (calls : List Call) :
    (calls.foldl InlineBuilder.call b).Sound := by
  induction calls generalizing b with
  | nil => exact h
  | cons c calls ih => exact ih (h.call c)

end Sound

theorem sound_ofCalls (calls : List Call) : (ofCalls calls).Sound := sound_empty.foldl_call calls

/-! ### Counts that are taken from -/

/-- The end of an element, with nothing where one would be taken from no open element. -/
def stop? (b : InlineBuilder) : Option InlineBuilder :=
  if b.inSource then b.sourceDepth.ppred.map fun left => { b with sourceDepth := left }
  else match b.span with
    | some s => s.depth.ppred.map fun left =>
      if left = 0 then { b with tokens := b.tokens ++ [s.token], span := none }
      else { b with span := some { s with depth := left } }
    | none => some b

def call? (b : InlineBuilder) : Call → Option InlineBuilder
  | .stop => b.stop?
  | c => some (b.call c)

theorem stop?_eq_some (h : b.Sound) : b.stop? = some b.stop := by
  unfold stop? stop
  split
  · next hin => rw [Nat.ppred_eq_pred (inSource_iff.1 hin), Option.map_some, Nat.pred_eq_sub_one]
  · cases hs : b.span with
    | none => rfl
    | some s =>
      dsimp only
      rw [Nat.ppred_eq_pred (h.counted s hs), Option.map_some, Nat.pred_eq_sub_one, apply_ite some]

theorem call?_eq_some (h : b.Sound) (c : Call) : b.call? c = some (b.call c) := by
  cases c with
  | stop => exact stop?_eq_some h
  | _ => rfl

/-- **No count is taken from where there is none**, whatever a run is told. -/
theorem Sound.foldlM_call? (h : b.Sound) (calls : List Call) :
    calls.foldlM call? b = some (calls.foldl InlineBuilder.call b) := by
  induction calls generalizing b with
  | nil => rfl
  | cons c calls ih =>
    rw [List.foldlM_cons, call?_eq_some h c, List.foldl_cons]
    exact ih (h.call c)

/-! ### Runs that are told calls -/

/-- The run has come about by calls alone. -/
def Told (b : InlineBuilder) : Prop := ∃ calls, b = ofCalls calls

theorem told_empty : Told {} := ⟨[], rfl⟩

theorem Told.call (h : b.Told) (c : Call) : (b.call c).Told := by
  obtain ⟨calls, rfl⟩ := h
  exact ⟨calls ++ [c], by rw [ofCalls, ofCalls, List.foldl_append]; rfl⟩

theorem Told.sound (h : b.Told) : b.Sound := by
  obtain ⟨calls, rfl⟩ := h
  exact sound_ofCalls calls

end InlineBuilder

open InlineBuilder (Told)

/-! ### Lists -/

namespace ListBuilder

/-- The runs of the items that are open. -/
def runs (b : ListBuilder) : List InlineBuilder := b.openItems.map OpenItem.inline

variable {b : ListBuilder}

theorem told_mapInline (h : ∀ run ∈ b.runs, run.Told) {f : InlineBuilder → InlineBuilder}
    (hf : ∀ run : InlineBuilder, run.Told → (f run).Told) :
    ∀ run ∈ (b.mapInline f).runs, run.Told := by
  obtain ⟨ordered, items, _ | ⟨item, outer⟩⟩ := b
  · exact h
  · obtain ⟨hitem, houter⟩ := List.forall_mem_cons.1 h
    exact List.forall_mem_cons.2 ⟨hf item.inline hitem, houter⟩

/-- The item that starts has a new run, and so has the one that it starts in. -/
theorem told_startItem (h : ∀ run ∈ b.runs, run.Told) : ∀ run ∈ b.startItem.runs, run.Told := by
  obtain ⟨ordered, items, _ | ⟨item, outer⟩⟩ := b
  · exact List.forall_mem_singleton.2 InlineBuilder.told_empty
  · have hnew : ∀ run ∈ ({} : InlineBuilder) :: {} :: outer.map OpenItem.inline, run.Told :=
      List.forall_mem_cons.2 ⟨InlineBuilder.told_empty,
        List.forall_mem_cons.2 ⟨InlineBuilder.told_empty, (List.forall_mem_cons.1 h).2⟩⟩
    simp only [startItem]
    split
    · exact hnew
    · exact hnew

theorem told_stopItem (h : ∀ run ∈ b.runs, run.Told) : ∀ run ∈ b.stopItem.runs, run.Told := by
  obtain ⟨ordered, items, _ | ⟨item, outer⟩⟩ := b
  · exact h
  · have houter := (List.forall_mem_cons.1 h).2
    simp only [stopItem]
    split
    · exact houter
    · exact houter

theorem told_start (h : ∀ run ∈ b.runs, run.Told) (tag : Tag) (source : String) :
    ∀ run ∈ (b.start tag source).runs, run.Told := by
  have hstart : ∀ run : InlineBuilder, run.Told → (run.start tag source).Told :=
    fun run hrun => hrun.call (.start tag source)
  have hseparate : ∀ run : InlineBuilder, run.Told → run.pushSeparator.Told :=
    fun run hrun => hrun.call .separator
  unfold start
  split
  · exact told_mapInline h hstart
  · split
    · exact told_startItem h
    · exact h
    · exact told_mapInline h hseparate
    · exact told_mapInline h fun run hrun => hstart _ (hseparate run hrun)
    · exact told_mapInline h fun run hrun => hstart _ (hseparate run hrun)
    · exact told_mapInline h fun run hrun => hstart _ (hseparate run hrun)
    · exact told_mapInline h hstart

theorem told_stop (h : ∀ run ∈ b.runs, run.Told) (kind : TagKind) :
    ∀ run ∈ (b.stop kind).runs, run.Told := by
  have hstop : ∀ run : InlineBuilder, run.Told → run.stop.Told := fun run hrun => hrun.call .stop
  unfold stop
  split
  · exact told_mapInline h hstop
  · split
    · exact told_stopItem h
    · exact h
    · exact h
    · exact told_mapInline h hstop

/-- Changes the run of the innermost item, where that can be done. -/
def mapInline? (b : ListBuilder) (f : InlineBuilder → Option InlineBuilder) : Option ListBuilder :=
  match b.openItems with
  | [] => some b
  | item :: outer =>
    (f item.inline).map fun inline =>
      { b with openItems := { item with inline := inline } :: outer }

/-- The end of an element within the list, with the counts of its runs checked. -/
def stop? (b : ListBuilder) (kind : TagKind) : Option ListBuilder :=
  if b.inSource then b.mapInline? (·.stop?)
  else match kind with
    | .item => some b.stopItem
    | .list | .paragraph => some b
    | _ => b.mapInline? (·.stop?)

theorem mapInline?_eq_some {f : InlineBuilder → Option InlineBuilder}
    {g : InlineBuilder → InlineBuilder} (h : ∀ run ∈ b.runs, f run = some (g run)) :
    b.mapInline? f = some (b.mapInline g) := by
  obtain ⟨ordered, items, _ | ⟨item, outer⟩⟩ := b
  · rfl
  · simp only [mapInline?, mapInline, h item.inline List.mem_cons_self, Option.map_some]

theorem stop?_eq_some (h : ∀ run ∈ b.runs, run.Sound) (kind : TagKind) :
    b.stop? kind = some (b.stop kind) := by
  have hinner : b.mapInline? (·.stop?) = some (b.mapInline (·.stop)) :=
    mapInline?_eq_some fun run hrun => InlineBuilder.stop?_eq_some (h run hrun)
  unfold stop? stop
  split
  · exact hinner
  · cases kind with
    | item | list | paragraph => rfl
    | _ => exact hinner

end ListBuilder

/-! ### Tables -/

namespace TableBuilder

/-- The run of the cell that is open. -/
def runs (b : TableBuilder) : List InlineBuilder := b.cell.toList

variable {b : TableBuilder}

theorem told_mapCell (h : ∀ run ∈ b.runs, run.Told) {f : InlineBuilder → InlineBuilder}
    (hf : ∀ run : InlineBuilder, run.Told → (f run).Told) :
    ∀ run ∈ (b.mapCell f).runs, run.Told := by
  obtain ⟨header, rows, row, _ | cell⟩ := b
  · exact List.forall_mem_nil _
  · exact List.forall_mem_singleton.2 (hf cell (List.forall_mem_singleton.1 h))

theorem told_start (h : ∀ run ∈ b.runs, run.Told) (tag : Tag) (source : String) :
    ∀ run ∈ (b.start tag source).runs, run.Told := by
  unfold start
  split
  · exact h
  · exact h
  · exact List.forall_mem_singleton.2 InlineBuilder.told_empty
  · exact told_mapCell h fun run hrun => hrun.call (.start tag source)

theorem told_stop (h : ∀ run ∈ b.runs, run.Told) (kind : TagKind) :
    ∀ run ∈ (b.stop kind).runs, run.Told := by
  unfold stop
  split
  · exact h
  · exact h
  · split
    · exact List.forall_mem_nil _
    · exact h
  · exact told_mapCell h fun run hrun => hrun.call .stop

/-- Changes the open cell, where that can be done. -/
def mapCell? (b : TableBuilder) (f : InlineBuilder → Option InlineBuilder) : Option TableBuilder :=
  match b.cell with
  | none => some b
  | some cell => (f cell).map fun cell => { b with cell := some cell }

/-- The end of an element within the table, with the counts of its run checked. -/
def stop? (b : TableBuilder) (kind : TagKind) : Option TableBuilder :=
  match kind with
  | .tableHead | .tableRow | .tableCell => some (b.stop kind)
  | _ => b.mapCell? (·.stop?)

theorem mapCell?_eq_some {f : InlineBuilder → Option InlineBuilder}
    {g : InlineBuilder → InlineBuilder} (h : ∀ run ∈ b.runs, f run = some (g run)) :
    b.mapCell? f = some (b.mapCell g) := by
  obtain ⟨header, rows, row, _ | cell⟩ := b
  · rfl
  · simp only [mapCell?, mapCell, h cell List.mem_cons_self, Option.map_some]

theorem stop?_eq_some (h : ∀ run ∈ b.runs, run.Sound) (kind : TagKind) :
    b.stop? kind = some (b.stop kind) := by
  have hinner : b.mapCell? (·.stop?) = some (b.mapCell (·.stop)) :=
    mapCell?_eq_some fun run hrun => InlineBuilder.stop?_eq_some (h run hrun)
  cases kind with
  | tableHead | tableRow | tableCell => rfl
  | _ => exact hinner

end TableBuilder

/-! ### Blocks -/

namespace OpenBlock

/-- The runs in the making that the block holds. -/
def runs : OpenBlock → List InlineBuilder
  | .heading _ inline | .paragraph _ inline => [inline]
  | .list items => items.runs
  | .table cells => cells.runs
  | .raw _ => []

variable {source : String} {b : OpenBlock}

/-- A block starts with runs that have been told nothing. -/
theorem told_ofTag {tag : Tag} {r : ByteRange} (h : ofTag source tag r = .ok b) :
    ∀ run ∈ b.runs, run.Told := by
  unfold ofTag at h
  split at h
  · cases h
    exact List.forall_mem_singleton.2 InlineBuilder.told_empty
  · cases h
    exact List.forall_mem_singleton.2 InlineBuilder.told_empty
  · cases h
    exact List.forall_mem_nil _
  · cases h
    exact List.forall_mem_nil _
  · obtain ⟨r', -, rfl⟩ := Except.map_eq_ok_iff.1 h
    exact List.forall_mem_nil _

theorem told_start (h : ∀ run ∈ b.runs, run.Told) (tag : Tag) (text : String) :
    ∀ run ∈ (b.start tag text).runs, run.Told := by
  cases b with
  | heading depth inline =>
    exact List.forall_mem_singleton.2 ((List.forall_mem_singleton.1 h).call (.start tag text))
  | paragraph r inline =>
    exact List.forall_mem_singleton.2 ((List.forall_mem_singleton.1 h).call (.start tag text))
  | list items => exact ListBuilder.told_start h tag text
  | table cells => exact TableBuilder.told_start h tag text
  | raw r => exact h

theorem told_stop (h : ∀ run ∈ b.runs, run.Told) (kind : TagKind) :
    ∀ run ∈ (b.stop kind).runs, run.Told := by
  cases b with
  | heading depth inline =>
    exact List.forall_mem_singleton.2 ((List.forall_mem_singleton.1 h).call .stop)
  | paragraph r inline =>
    exact List.forall_mem_singleton.2 ((List.forall_mem_singleton.1 h).call .stop)
  | list items => exact ListBuilder.told_stop h kind
  | table cells => exact TableBuilder.told_stop h kind
  | raw r => exact h

theorem told_leaf (h : ∀ run ∈ b.runs, run.Told) (l : Leaf) (text : String) :
    ∀ run ∈ (b.leaf l text).runs, run.Told := by
  cases b with
  | heading depth inline =>
    exact List.forall_mem_singleton.2 ((List.forall_mem_singleton.1 h).call (.leaf l text))
  | paragraph r inline =>
    exact List.forall_mem_singleton.2 ((List.forall_mem_singleton.1 h).call (.leaf l text))
  | list items => exact ListBuilder.told_mapInline h fun run hrun => hrun.call (.leaf l text)
  | table cells => exact TableBuilder.told_mapCell h fun run hrun => hrun.call (.leaf l text)
  | raw r => exact h

/-- The end of an element within the block, with the counts of its runs checked. -/
def stop? (kind : TagKind) : OpenBlock → Option OpenBlock
  | .heading depth inline => inline.stop?.map (.heading depth)
  | .paragraph range inline => inline.stop?.map (.paragraph range)
  | .list items => (items.stop? kind).map .list
  | .table cells => (cells.stop? kind).map .table
  | .raw range => some (.raw range)

theorem stop?_eq_some (h : ∀ run ∈ b.runs, run.Sound) (kind : TagKind) :
    b.stop? kind = some (b.stop kind) := by
  cases b with
  | heading depth inline =>
    rw [stop?, InlineBuilder.stop?_eq_some (List.forall_mem_singleton.1 h), Option.map_some, stop]
  | paragraph r inline =>
    rw [stop?, InlineBuilder.stop?_eq_some (List.forall_mem_singleton.1 h), Option.map_some, stop]
  | list items => rw [stop?, ListBuilder.stop?_eq_some h, Option.map_some, stop]
  | table cells => rw [stop?, TableBuilder.stop?_eq_some h, Option.map_some, stop]
  | raw r => rfl

end OpenBlock

end MarkdownEdits
