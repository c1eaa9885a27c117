import MarkdownEdits.Compilation.Basic
import MarkdownEdits.Http.Client
import MarkdownEdits.Toml.Parser

/-!
# Settings

The settings that a configuration file may give, each with a default. The tables `service` and
`compile` name their fields, or give them as an array in the order below; names that are not known
are passed over.
-/

namespace MarkdownEdits

/-- How to reach the document service. -/
structure ServiceSettings where
  endpoint : String := Http.defaultEndpoint
  timeoutSeconds : Nat := 30
  /-- The file that holds the access token. -/
  tokenFile : Option String := none
  deriving DecidableEq, Repr, Inhabited

structure Settings where
  service : ServiceSettings := {}
  compile : Options := {}
  deriving DecidableEq, Repr, Inhabited

namespace Toml

mutual

/-- Whether the numbers in a value are small enough to be read at all: integers in 128 bits, floats
in the range of a double. -/
def Value.isReadable : Value → Bool
  | .integer n => -(1 <<< 127) ≤ n && n < 1 <<< 128
  | .float finite => finite
  | .array items => readableItems items
  | .table _ entries => readableEntries entries
  | .tables items => readableTables items
  | .string _ | .boolean _ | .date => true

def readableItems : List Value → Bool
  | [] => true
  | v :: vs => v.isReadable && readableItems vs

def readableEntries : List (String × Value) → Bool
  | [] => true
  | (_, v) :: rest => v.isReadable && readableEntries rest

def readableTables : List (List (String × Value)) → Bool
  | [] => true
  | t :: ts => readableEntries t && readableTables ts

end

def Value.string? : Value → Option String
  | .string s => some s
  | _ => none

/-- The value of an integer between 0 and `2 ^ 64 - 1`. -/
def Value.nat? : Value → Option Nat
  | .integer (.ofNat n) => if n < 1 <<< 64 then some n else none
  | _ => none

end Toml

namespace Settings

open Toml (Value)

/-- A field of `σ`: its name, and how a value sets it. -/
structure Field (σ : Type) where
  name : String
  set : σ → Value → Option σ

def serviceFields : List (Field ServiceSettings) := [
  ⟨"endpoint", fun s v => v.string?.map fun x => { s with endpoint := x }⟩,
  ⟨"timeout_secs", fun s v => v.nat?.map fun x => { s with timeoutSeconds := x }⟩,
  ⟨"token_file", fun s v => v.string?.map fun x => { s with tokenFile := some x }⟩]

def compileFields : List (Field Options) := [
  ⟨"initial_offset", fun o v => v.nat?.map fun x => { o with initialOffset := x }⟩,
  ⟨"monospace_font", fun o v => v.string?.map fun x => { o with monospaceFont := x }⟩,
  ⟨"ordered_preset", fun o v => v.string?.map fun x => { o with orderedPreset := x }⟩,
  ⟨"unordered_preset", fun o v => v.string?.map fun x => { o with unorderedPreset := x }⟩]

/-- Sets the field that an entry names. -/
def setEntry {σ : Type} (fields : List (Field σ)) (s : σ) (entry : String × Value) : Option σ :=
  match fields.find? (·.name == entry.1) with
  | some field => field.set s entry.2
  | none => if entry.2.isReadable then some s else none

/-- Sets fields by name or by position. Values beyond the last field are not looked at. -/
def setFields {σ : Type} (fields : List (Field σ)) (s : σ) : Value → Option σ
  | .table _ entries => entries.foldlM (setEntry fields) s
  | .array items => (fields.zip items).foldlM (fun s (field, v) => field.set s v) s
  | .tables items =>
    (fields.zip items).foldlM (fun s (field, entries) => field.set s (.table .header entries)) s
  | _ => none

def sections : List (Field Settings) := [
  ⟨"service", fun s v => (setFields serviceFields s.service v).map fun x => { s with service := x }⟩,
  ⟨"compile", fun s v => (setFields compileFields s.compile v).map fun x => { s with compile := x }⟩]

/-- The settings in the text of a configuration file. -/
def parse? (text : String) : Option Settings := do
  (← Toml.parse? text).foldlM (setEntry sections) {}

end Settings

end MarkdownEdits
