import MarkdownEdits.Files
import MarkdownEdits.Http.Client

/-!
# The machine

What a program asks of the machine it runs on: files, standard input and the network.
-/

namespace MarkdownEdits

inductive MachineCall
  | pathExists (path : String)
  | readFile (path : String)
  | readInput
  | send (request : Http.Request)
  deriving Repr, Inhabited

abbrev MachineCall.Answer : MachineCall → Type
  | .pathExists _ => Bool
  | .readFile _ => Except FileError (List UInt8)
  | .readInput => List UInt8
  | .send _ => Option Http.Reply

abbrev machine : Interface := ⟨MachineCall, MachineCall.Answer⟩

/-- A dialogue with the machine that may end in an error. -/
abbrev Program (ε : Type) := ExceptT ε (Dialogue machine)

namespace Program

variable {ε α : Type}

def liftExcept (x : Except ε α) : Program ε α := ExceptT.mk (.done x)

def fileExists (path : String) : Program ε Bool :=
  ExceptT.mk (.ask (.pathExists path) fun answer => .done (.ok answer))

/-- The text of a file. -/
def readFile (path : String) : Program FileError String :=
  ExceptT.mk (.ask (.readFile path) fun bytes => .done (bytes.bind textOfBytes))

/-- The text of standard input. -/
def readInput : Program FileError String :=
  ExceptT.mk (.ask .readInput fun bytes => .done (textOfBytes bytes))

/-- The same program with its errors put in other words. -/
def mapError {ε' : Type} (f : ε → ε') (p : Program ε α) : Program ε' α :=
  ExceptT.mk (p.run.bind fun result => .done (result.mapError f))

/-- A dialogue over the network, held by the machine. -/
def overNetwork (d : Dialogue Http.network (Except ε α)) : Program ε α :=
  ExceptT.mk (d.interpret fun request => .ask (.send request) .done)

end Program

end MarkdownEdits
