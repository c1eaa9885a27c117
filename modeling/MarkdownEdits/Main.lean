import MarkdownEdits.CommandLine.Run
import MarkdownEdits.Event.Json

/-!
# The program

The outer layer: it hands arguments and environment to the command line, answers what the program
asks of the machine, and prints what comes of it. The event stream of the Markdown is read from the
file that `MDBATCH_EVENTS` names; a network is not at hand, so requests stay without a reply.
-/

namespace MarkdownEdits.Main

/-- The system's codes 20 and 21 stand for a missing and for an unexpected directory. -/
def fileError : IO.Error → FileError
  | .noFileOrDirectory .. => .notFound
  | .inappropriateType _ 20 _ => .notDirectory
  | .inappropriateType _ 21 _ => .isDirectory
  | e => .other (toString e)

def readFile (path : String) : IO (Except FileError (List UInt8)) := do
  try
    let bytes ← IO.FS.readBinFile path
    return .ok bytes.data.toList
  catch e => return .error (fileError e)

/-- A file exists unless opening it says otherwise. -/
def fileExists (path : String) : IO Bool := do
  try
    let _ ← IO.FS.Handle.mk path .read
    return true
  catch e =>
    let error := fileError e
    return error != .notFound && error != .notDirectory

partial def readAll (input : IO.FS.Stream) (bytes : ByteArray) : IO ByteArray := do
  let more ← input.read 65536
  if more.isEmpty then return bytes else readAll input (bytes ++ more)

def answer : (call : MachineCall) → IO call.Answer
  | .pathExists path => fileExists path
  | .readFile path => readFile path
  | .readInput => do return (← readAll (← IO.getStdin) .empty).data.toList
  | .send _ => return none

/-- Holds a dialogue with the machine. -/
def hold {α : Type} : Dialogue machine α → IO α
  | .done a => return a
  | .ask call next => do hold (next (← answer call))

/-- The variables of the process, as the system lists them. -/
def readVariables : IO (List (String × String)) := do
  match ← readFile "/proc/self/environ" with
  | .error _ => return []
  | .ok bytes =>
    let text := (textOfBytes bytes).toOption.getD ""
    return (text.splitOn "\x00").filterMap fun entry =>
      match entry.splitOn "=" with
      | name :: value => if value.isEmpty then none else some (name, "=".intercalate value)
      | [] => none

def readEvents (e : Environment) : IO (List SourceEvent) := do
  match e.get? "MDBATCH_EVENTS" with
  | none => return []
  | some path =>
    match (← readFile path).bind textOfBytes with
    | .error _ => return []
    | .ok text => return (eventsOfJson? text).getD []

def printExit (exit : CommandLine.Exit) : IO Unit := do
  IO.print exit.output
  IO.eprint exit.errors
  unless exit.causes.isEmpty do
    IO.eprintln ("\n\nCaused by:\n    " ++ "\n    ".intercalate exit.causes)

def run (args : List String) : IO UInt32 := do
  let e : Environment := ⟨← readVariables⟩
  let events ← readEvents e
  let exit ← hold (CommandLine.run (fun _ => events) e args)
  printExit exit
  return exit.code.toUInt32

end MarkdownEdits.Main

def main (args : List String) : IO UInt32 := MarkdownEdits.Main.run args
