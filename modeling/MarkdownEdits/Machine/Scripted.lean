import MarkdownEdits.Http.Scripted
import MarkdownEdits.Machine
import MarkdownEdits.Machine.FileTree

/-!
# Scripted machines

A machine that answers from a tree of files, a fixed input and a scripted server.
-/

namespace MarkdownEdits

structure ScriptedMachine where
  files : FileTree
  input : List UInt8
  server : Http.ScriptedServer
  deriving Inhabited

namespace ScriptedMachine

/-- Only the network changes the machine. -/
def answer : (call : MachineCall) → ScriptedMachine → call.Answer × ScriptedMachine
  | .pathExists path, m => (m.files.fileExists path, m)
  | .readFile path, m => (m.files.read path, m)
  | .readInput, m => (m.input, m)
  | .send request, m =>
    let (reply, server) := m.server.answer request
    (reply, { m with server })

/-- Runs a dialogue on the machine: its result, and the machine behind it. -/
def run {α : Type} (d : Dialogue machine α) (m : ScriptedMachine) : α × ScriptedMachine :=
  let t := d.run answer m
  (t.result, t.state)

end ScriptedMachine

end MarkdownEdits
