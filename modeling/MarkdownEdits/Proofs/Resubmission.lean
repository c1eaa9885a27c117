import MarkdownEdits.CommandLine.Run
import MarkdownEdits.Machine.Scripted
import MarkdownEdits.Proofs.Sequencing
import MarkdownEdits.Proofs.Wire

/-!
# Printed batches submitted later

A batch leaves the program as a printed text or as a submission. What `compile` and a dry run print
parses as the very body that an insertion sends, and sending that body ready-made asks the service
the same and reports the same.
-/

namespace MarkdownEdits

/-! ### The ways out of the program -/

/-- A submission that sends one body to one document and reports `requests` and the reply. -/
def Submits (x : Submission Submitted) (id : String) (body : Json) (requests : Nat) : Prop :=
  ∀ (σ : Type) (answer : (call : ServiceCall) → σ → call.Answer × σ) (s : σ),
    x.run.run answer s =
      match answer (.submit id body) s with
      | (.ok reply, s) => ⟨.ok ⟨requests, reply⟩, s, [.submit id body]⟩
      | (.error e, s) => ⟨.error (.service e), s, [.submit id body]⟩

/-- A command that prints a text, having asked the machine for nothing but its input, wherever the
options `o` and the Markdown `m` come from. -/
def Prints (o : Options) (m : Markdown) (command : CommandLine.SourceArguments → CommandLine.Command)
    (text : String) : Prop :=
  ∀ (σ : Type) (answer : (call : MachineCall) → σ → call.Answer × σ) (s : σ)
    (events : String → List SourceEvent) (settings : Settings)
    (source : CommandLine.SourceArguments),
    CommandLine.compileOptions settings source = o →
    let input := (CommandLine.loadMarkdown events source).run.run answer s
    input.result = .ok m →
    (CommandLine.runCommand events settings (command source)).run.run answer s =
      ⟨.ok (CommandLine.printLine text), input.state, input.asked⟩

theorem submits_submitEdits (id : String) (edits : List Edit) :
    Submits (Submission.submitEdits id edits) id (batchJson edits).sorted edits.length := by
  intro σ answer s
  show Transcript.mk _ _ _ = _
  rcases answer (.submit id (batchJson edits).sorted) s with ⟨reply | reply, s'⟩ <;> rfl

theorem submits_apply (id : String) {body : Json} {n : Nat}
    (h : Submission.requestCount body = .ok n) : Submits (.apply id body) id body n := by
  intro σ answer s
  rw [Submission.apply, h]
  show Transcript.mk _ _ _ = _
  rcases answer (.submit id body) s with ⟨reply | reply, s'⟩ <;> rfl

section Compiled

variable {o : Options} {m : Markdown} {c : Compilation}

theorem submits_insert (h : compileMarkdown o m = .ok c) (hne : c.edits ≠ []) (id : String) :
    Submits (.insert o id m) id (batchJson c.edits).sorted c.edits.length := by
  have hempty : c.edits.isEmpty = false := List.isEmpty_eq_false_iff.2 hne
  have hinsert : Submission.insert o id m = Submission.submitEdits id c.edits := by
    rw [Submission.insert, h]
    show (if c.edits.isEmpty then _ else _) = _
    rw [hempty]
    rfl
  rw [hinsert]
  exact submits_submitEdits id c.edits

theorem compiled_eq_pure (h : compileMarkdown o m = .ok c) :
    CommandLine.compiled o m = pure (batchJson c.edits) := by
  rw [CommandLine.compiled.eq_def, h]

theorem prints_compile (h : compileMarkdown o m = .ok c) (pretty : Bool) :
    Prints o m (.compile · pretty)
      (if pretty then (batchJson c.edits).indented else (batchJson c.edits).compact) := by
  rintro σ answer s events settings source rfl input hinput
  refine Program.run_bind_done hinput ?_
  simp only [compiled_eq_pure h]
  rfl

theorem prints_dryRun (h : compileMarkdown o m = .ok c) (id : String)
    (service : CommandLine.ServiceArguments) :
    Prints o m (.insert id · service true) (batchJson c.edits).indented := by
  rintro σ answer s events settings source rfl input hinput
  refine Program.run_bind_done hinput ?_
  simp only [compiled_eq_pure h]
  rfl

end Compiled

/-- **What a compiled batch is, whichever way it leaves the program.** -/
structure Agreement (o : Options) (id : String) (m : Markdown) (c : Compilation) (body : Json) :
    Prop where
  compact : Json.parse? (CommandLine.printLine (batchJson c.edits).compact).output = some body
  indented : Json.parse? (CommandLine.printLine (batchJson c.edits).indented).output = some body
  compile : Prints o m (.compile · false) (batchJson c.edits).compact
  compilePretty : Prints o m (.compile · true) (batchJson c.edits).indented
  dryRun : ∀ service, Prints o m (.insert id · service true) (batchJson c.edits).indented
  insert : Submits (.insert o id m) id body c.edits.length
  apply : Submits (.apply id body) id body c.edits.length

/-- **Every printed form of a batch, sent ready-made, is the batch that an insertion sends.** The
body is the JSON of the edits with its members sorted. Offsets are numbers of 64 bits, which JSON
holds exactly. -/
theorem agreement_of_compileMarkdown {o : Options} {m : Markdown} {c : Compilation}
    (h : compileMarkdown o m = .ok c) (hne : c.edits ≠ []) (hoffsets : c.finalOffset < 2 ^ 64)
    (id : String) : Agreement o id m c (batchJson c.edits).sorted := by
  have hfits := fits_batchJson_of_compileMarkdown h hoffsets
  have hcount := requestCount_sorted_batchJson c.edits
  exact {
    compact := Json.parse?_compact hfits
    indented := Json.parse?_indented hfits
    compile := prints_compile h false
    compilePretty := prints_compile h true
    dryRun := prints_dryRun h id
    insert := submits_insert h hne id
    apply := submits_apply id hcount }

/-- A paragraph whose strong part holds a quote, a control character and a surrogate pair. -/
def quotedMarkdown : Markdown :=
  ⟨"**\"\x01😄**\n",
    [⟨.start (.plain .paragraph), ⟨0, 11⟩⟩, ⟨.start (.plain .strong), ⟨0, 10⟩⟩,
      ⟨.leaf (.text "\"\x01😄"), ⟨2, 8⟩⟩, ⟨.stop .strong, ⟨0, 10⟩⟩, ⟨.stop .paragraph, ⟨0, 11⟩⟩]⟩

/-- A machine whose standard input is that paragraph. -/
def quotedMachine : ScriptedMachine :=
  { (default : ScriptedMachine) with input := Text.bytes quotedMarkdown.text }

/-- The paragraph compiled from standard input: the text printed holds the body, and its two
requests go out in one call. -/
theorem agreement_of_quotedMarkdown :
    ∃ c, compileMarkdown {} quotedMarkdown = .ok c ∧ c.edits ≠ [] ∧ c.finalOffset < 2 ^ 64 ∧
      Agreement {} "doc" quotedMarkdown c (batchJson c.edits).sorted ∧ c.edits.length = 2 ∧
      (CommandLine.runCommand (fun _ => quotedMarkdown.events) {}
          (.compile ⟨none, false, none⟩ false)).run.run ScriptedMachine.answer quotedMachine =
        ⟨.ok (CommandLine.printLine (batchJson c.edits).compact), quotedMachine, [.readInput]⟩ := by
  have hcompile : compileMarkdown {} quotedMarkdown =
      .ok ⟨[.insertText "\"\x01😄\n", .textStyle .bold ⟨1, 5⟩], [⟨0, 2, ⟨1, 6⟩⟩], 1, 6⟩ := rfl
  have hinput : ((CommandLine.loadMarkdown (fun _ => quotedMarkdown.events)
      ⟨none, false, none⟩).run.run ScriptedMachine.answer quotedMachine).result =
        .ok quotedMarkdown := by rfl
  have hagreement := agreement_of_compileMarkdown hcompile (by simp) (by decide) "doc"
  refine ⟨_, hcompile, by simp, by decide, hagreement, rfl, ?_⟩
  exact hagreement.compile _ ScriptedMachine.answer _ _ {} _ rfl hinput

end MarkdownEdits
