/-!
# Command-line arguments

Options and positional arguments are first told apart by the options that a command has, then read
as the command.
-/

namespace MarkdownEdits.CommandLine

/-- An option: its long name, perhaps a letter, and whether a value follows it. -/
structure OptionSpec where
  long : String
  letter : Option Char := none
  takesValue : Bool
  deriving DecidableEq, Repr, Inhabited

/-- The options of an argument list with their values, empty where an option takes none, and the
positional arguments. -/
structure Scanned where
  options : List (String × String) := []
  positionals : List String := []
  deriving DecidableEq, Repr, Inhabited

namespace Scanned

def value? (s : Scanned) (long : String) : Option String := s.options.lookup long

def has (s : Scanned) (long : String) : Bool := (s.value? long).isSome

/-- Adds an option. None may be given twice. -/
def addOption (long value : String) (s : Scanned) : Option Scanned :=
  if s.has long then none else some { s with options := (long, value) :: s.options }

def addPositional (value : String) (s : Scanned) : Scanned :=
  { s with positionals := value :: s.positionals }

end Scanned

/-- Whether an argument is an option and no value. A single dash is a value. -/
def isOption (arg : List Char) : Bool := arg.head? == some '-' && 1 < arg.length

/-- What stands before and behind the first equals sign. -/
def splitEquals (cs : List Char) : List Char × Option (List Char) :=
  let name := cs.takeWhile (· != '=')
  match cs.dropWhile (· != '=') with
  | [] => (name, none)
  | _ :: value => (name, some value)

/-- The options of one argument: complete ones with their values, and the last one if its value is
still to come. -/
structure OptionArgument where
  complete : List (String × String) := []
  awaiting : Option String := none
  deriving DecidableEq, Repr, Inhabited

/-- An argument with two dashes. -/
def longArgument? (specs : List OptionSpec) (body : List Char) : Option OptionArgument := do
  let (name, value) := splitEquals body
  let spec ← specs.find? fun s => s.long.toList == name
  match spec.takesValue, value with
  | true, some value => return { complete := [(spec.long, .ofList value)] }
  | true, none => return { awaiting := some spec.long }
  | false, none => return { complete := [(spec.long, "")] }
  | false, some _ => none

/-- An argument with one dash: letters, of which the first that takes a value takes the rest. -/
def letterArgument? (specs : List OptionSpec) : List Char → Option OptionArgument
  | [] => some {}
  | c :: rest => do
    let spec ← specs.find? fun s => s.letter == some c
    if spec.takesValue then
      match rest with
      | [] => return { awaiting := some spec.long }
      | '=' :: value => return { complete := [(spec.long, .ofList value)] }
      | value => return { complete := [(spec.long, .ofList value)] }
    else
      let more ← letterArgument? specs rest
      return { more with complete := (spec.long, "") :: more.complete }

def optionArgument? (specs : List OptionSpec) : List Char → Option OptionArgument
  | '-' :: '-' :: body => longArgument? specs body
  | '-' :: body => letterArgument? specs body
  | _ => none

/-- Tells options and positional arguments apart, added to what has been read before. Behind two
dashes there are no options. -/
def scan (specs : List OptionSpec) (s : Scanned) : List String → Option Scanned
  | [] => some { s with positionals := s.positionals.reverse }
  | arg :: args =>
    if arg = "--" then some { s with positionals := s.positionals.reverse ++ args }
    else if isOption arg.toList then do
      let options ← optionArgument? specs arg.toList
      let s ← options.complete.foldlM (fun s (long, value) => s.addOption long value) s
      match options.awaiting, args with
      | none, args => scan specs s args
      | some long, value :: args =>
        if isOption value.toList then none
        else scan specs (← s.addOption long value) args
      | some _, [] => none
    else scan specs (s.addPositional arg) args

/-! ### Commands -/

/-- Where the Markdown of a command comes from and where it goes. -/
structure SourceArguments where
  input : Option String
  json : Bool
  initialOffset : Option Nat
  deriving DecidableEq, Repr, Inhabited

structure ServiceArguments where
  accessToken : Option String
  endpoint : Option String
  deriving DecidableEq, Repr, Inhabited

inductive Command
  | compile (source : SourceArguments) (pretty : Bool)
  | insert (documentId : String) (source : SourceArguments) (service : ServiceArguments)
      (dryRun : Bool)
  | apply (documentId requests : String) (service : ServiceArguments)
  | clear (documentId : String) (start stop : Option Nat) (service : ServiceArguments)
      (dryRun : Bool)
  deriving DecidableEq, Repr, Inhabited

/-- What an argument list asks for. -/
inductive Request
  | version
  | help
  | run (config : Option String) (command : Command)
  deriving DecidableEq, Repr, Inhabited

def configOption : OptionSpec := ⟨"config", some 'c', true⟩

def helpOption : OptionSpec := ⟨"help", some 'h', false⟩

def sourceOptions : List OptionSpec := [⟨"json", none, false⟩, ⟨"initial-offset", none, true⟩]

def serviceOptions : List OptionSpec := [⟨"access-token", none, true⟩, ⟨"endpoint", none, true⟩]

def dryRunOption : OptionSpec := ⟨"dry-run", none, false⟩

def isDigit (c : Char) : Bool := '0' ≤ c && c ≤ '9'

/-- A number below `2 ^ 64`, perhaps with a plus sign. -/
def nat? (s : String) : Option Nat :=
  let ds := match s.toList with
    | '+' :: ds => ds
    | ds => ds
  let n := ds.foldl (fun n d => n * 10 + (d.toNat - 48)) 0
  if !ds.isEmpty && ds.all isDigit && n < 1 <<< 64 then some n else none

/-- The outer option says whether the value can be read, the inner one whether it is given. -/
def optional {α : Type} (read : String → Option α) : Option String → Option (Option α)
  | none => some none
  | some s => (read s).map some

/-- A path has at least one character. -/
def path? (s : String) : Option String := if s = "" then none else some s

def sourceArguments? (input : Option String) (s : Scanned) : Option SourceArguments := do
  return ⟨← optional path? input, s.has "json", ← optional nat? (s.value? "initial-offset")⟩

/-- The access token may also come from the environment. -/
def serviceArguments (environmentToken : Option String) (s : Scanned) : ServiceArguments :=
  ⟨(s.value? "access-token").or environmentToken, s.value? "endpoint"⟩

/-- The options of a command. -/
def commandOptions? : String → Option (List OptionSpec)
  | "compile" => some (⟨"pretty", none, false⟩ :: sourceOptions)
  | "insert" => some (dryRunOption :: sourceOptions ++ serviceOptions)
  | "apply" => some serviceOptions
  | "clear" =>
    some (dryRunOption :: ⟨"start", none, true⟩ :: ⟨"end", none, true⟩ :: serviceOptions)
  | _ => none

/-- The command that a name and its scanned arguments say. -/
def command? (environmentToken : Option String) (name : String) (s : Scanned) : Option Command :=
  let service := serviceArguments environmentToken s
  match name, s.positionals with
  | "compile", [] => do return .compile (← sourceArguments? none s) (s.has "pretty")
  | "compile", [input] => do return .compile (← sourceArguments? (some input) s) (s.has "pretty")
  | "insert", [id] => do return .insert id (← sourceArguments? none s) service (s.has "dry-run")
  | "insert", [id, input] => do
    return .insert id (← sourceArguments? (some input) s) service (s.has "dry-run")
  | "apply", [id, requests] => do return .apply id (← path? requests) service
  | "clear", [id] => do
    return .clear id (← optional nat? (s.value? "start")) (← optional nat? (s.value? "end")) service
      (s.has "dry-run")
  | _, _ => none

/-- The arguments behind the name of a command. A file named there goes before one named earlier. -/
def commandRequest? (environmentToken config : Option String) (name : String)
    (args : List String) : Option Request := do
  let s ← scan (configOption :: helpOption :: (← commandOptions? name)) {} args
  if s.has "help" then return .help
  let inner ← optional path? (s.value? "config")
  return .run (inner.or config) (← command? environmentToken name s)

/-- What an argument list asks for; `none` if it cannot be understood. -/
def request? (environmentToken : Option String) (config : Option String) :
    List String → Option Request
  | [] => none
  | arg :: args =>
    if arg = "--" then none
    else if isOption arg.toList then do
      let options ← optionArgument?
        [configOption, helpOption, ⟨"version", some 'V', false⟩] arg.toList
      let given := options.complete.lookup "config"
      if given.isSome ∧ config.isSome then none
      else if options.complete.any (·.1 == "version") then return .version
      else if options.complete.any (·.1 == "help") then return .help
      else match options.awaiting, args with
        | none, args => request? environmentToken ((← optional path? given).or config) args
        | some _, value :: args =>
          if isOption value.toList ∨ config.isSome then none
          else request? environmentToken (some (← path? value)) args
        | some _, [] => none
    else if arg = "help" then return .help
    else commandRequest? environmentToken config arg args

end MarkdownEdits.CommandLine
