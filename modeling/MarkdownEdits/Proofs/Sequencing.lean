import MarkdownEdits.Machine

/-!
# Steps in sequence

Computations go on with the result of a first part. One that may fail succeeds when both parts do;
a dialogue is held in two parts, and its questions are those of the one and then those of the other.
-/

/-! ### Computations that may fail -/

theorem Except.bind_eq_ok_iff {ε α β : Type} {x : Except ε α} {f : α → Except ε β} {b : β} :
    x >>= f = .ok b ↔ ∃ a, x = .ok a ∧ f a = .ok b := by
  cases x <;> simp [bind, Except.bind]

theorem Except.map_eq_ok_iff {ε α β : Type} {x : Except ε α} {f : α → β} {b : β} :
    x.map f = .ok b ↔ ∃ a, x = .ok a ∧ f a = b := by
  cases x <;> simp [Except.map]

theorem Except.mapError_eq_ok_iff {ε ε' α : Type} {x : Except ε α} {f : ε → ε'} {a : α} :
    x.mapError f = .ok a ↔ x = .ok a := by
  cases x with
  | error e => exact ⟨nofun, nofun⟩
  | ok b => exact ⟨fun h => by cases h; rfl, fun h => by cases h; rfl⟩

namespace MarkdownEdits

/-! ### Dialogues -/

section Run

variable {I : Interface} {α β σ : Type} {answer : (q : I.Question) → σ → I.Answer q × σ}

theorem Dialogue.run_bind (d : Dialogue I α) (f : α → Dialogue I β) {s : σ} {t : Transcript I σ α}
    {u : Transcript I σ β} (ht : d.run answer s = t) (hu : (f t.result).run answer t.state = u) :
    (d.bind f).run answer s = ⟨u.result, u.state, t.asked ++ u.asked⟩ := by
  induction d generalizing s t with
  | done a =>
    subst ht
    exact hu
  | ask q next ih =>
    subst ht
    have hnext := ih (answer q s).1 rfl hu
    simp only [Dialogue.bind, Dialogue.run, hnext]
    rfl

end Run

/-- A program whose second part asks nothing more. -/
theorem Program.run_bind_done {ε α β σ : Type} {answer : (call : MachineCall) → σ → call.Answer × σ}
    {x : Program ε α} {f : α → Program ε β} {s : σ} {a : α} {r : Except ε β}
    (ha : (x.run.run answer s).result = .ok a) (hf : (f a).run = .done r) :
    (x >>= f).run.run answer s =
      ⟨r, (x.run.run answer s).state, (x.run.run answer s).asked⟩ := by
  have hrest : (ExceptT.bindCont f (x.run.run answer s).result : Dialogue machine _).run answer
      (x.run.run answer s).state = ⟨r, (x.run.run answer s).state, []⟩ := by
    rw [ha]
    show (f a).run.run answer _ = _
    rw [hf]
    rfl
  have h := Dialogue.run_bind x.run (ExceptT.bindCont f) rfl hrest
  rwa [List.append_nil] at h

end MarkdownEdits
