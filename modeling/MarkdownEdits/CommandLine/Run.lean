import MarkdownEdits.CommandLine.Arguments
import MarkdownEdits.Config.Load
import MarkdownEdits.Submission

/-!
# Running commands

A command loads its settings, reads its input and prints what comes of it. What fails ends in one
error line, with its causes below it.
-/

namespace MarkdownEdits.CommandLine

/-- What a command prints. -/
structure Printed where
  output : String := ""
  errors : String := ""
  deriving DecidableEq, Repr, Inhabited

/-- How a command fails: what it had printed among the errors, the error, and its causes. -/
structure Failure where
  printed : String := ""
  message : String
  causes : List String := []
  deriving DecidableEq, Repr, Inhabited

/-- How a run ends. -/
structure Exit where
  code : Nat
  output : String
  errors : String
  /-- Causes of the error; it is the last thing among the errors, and its line is open as long as
  the causes have not been written. -/
  causes : List String
  deriving DecidableEq, Repr, Inhabited

def Exit.ofPrinted (p : Printed) : Exit := ⟨0, p.output, p.errors, []⟩

def Exit.ofFailure (f : Failure) : Exit :=
  let line := "Error: " ++ f.message ++ (if f.causes.isEmpty then "\n" else "")
  ⟨1, "", f.printed ++ line, f.causes⟩

/-- What cannot be understood gives the code of a usage error. -/
def Exit.usage : Exit := ⟨2, "", "", []⟩

abbrev CommandProgram := Program Failure

/-! ### Errors -/

/-- An error that names what could not be read, with the reason as its cause. -/
def readFailure (what : String) (cause : FileError) : Failure :=
  { message := "Failed to read " ++ what, causes := [cause.message] }

def configFailure (e : ConfigError) : Failure :=
  { message := e.message,
    causes := match e with
      | .read _ cause | .token _ cause => [cause.message]
      | .parse _ => [tomlFault] }

def submitFailure (e : SubmitError) : Failure :=
  { message := e.message,
    causes := match e with
      | .compile (.invariant v) => [v.message]
      | .service (.transport fault) => [fault.message]
      | _ => [] }

/-- A rejected request prints the body of the reply before the error. -/
def rejectionFailure (e : SubmitError) : Failure :=
  match e with
  | .service (.rejected _ body) => { submitFailure e with printed := Text.trimEnd body ++ "\n" }
  | _ => submitFailure e

def noTokenFailure : Failure :=
  { message := "No access token: pass --access-token, set MDBATCH_ACCESS_TOKEN or configure service.token_file" }

/-! ### Parts of commands -/

/-- The text of a file, or of standard input where none or a dash is named. -/
def readText (path : Option String) : CommandProgram String :=
  match path with
  | none | some "-" => Program.mapError (readFailure "stdin") Program.readInput
  | some path => Program.mapError (readFailure path) (Program.readFile path)

/-- The Markdown that a command works on, with its event stream. -/
def loadMarkdown (events : String → List SourceEvent) (s : SourceArguments) :
    CommandProgram Markdown := do
  let body ← readText s.input
  let contentType := if s.json then some "application/json" else none
  match Payload.extract body contentType with
  | .ok text => return ⟨text, events text⟩
  | .error e => throw (submitFailure (.input e))

def compileOptions (settings : Settings) (s : SourceArguments) : Options :=
  { settings.compile with initialOffset := s.initialOffset.getD settings.compile.initialOffset }

def compiled (o : Options) (m : Markdown) : CommandProgram Json :=
  match compileMarkdown o m with
  | .ok c => return batchJson c.edits
  | .error e => throw (submitFailure (.compile e))

/-- The access token that is given, unless it is blank, else the one in the token file. -/
def accessToken (settings : Settings) (given : Option String) : CommandProgram String :=
  let given := Text.trim (given.getD "")
  if given ≠ "" then return given
  else do
    match ← Program.mapError configFailure settings.readToken with
    | some token => return token
    | none => throw noTokenFailure

def connect (settings : Settings) (s : ServiceArguments) : CommandProgram Http.Client := do
  let token ← accessToken settings s.accessToken
  return .ofUrl (s.endpoint.getD settings.service.endpoint) token

/-- Holds a submission over the network. -/
def hold {α : Type} (client : Http.Client) (failure : SubmitError → Failure) (x : Submission α) :
    CommandProgram α :=
  Program.mapError failure (Program.overNetwork (client.connect x.run))

def printLine (text : String) : Printed := { output := text ++ "\n" }

/-- What an accepted submission prints. -/
def report (s : Submitted) : Printed :=
  { output := s.reply.indented ++ "\n", errors := s!"Sent {s.requests} request(s)\n" }

/-! ### Commands -/

def runCommand (events : String → List SourceEvent) (settings : Settings) :
    Command → CommandProgram Printed
  | .compile source pretty => do
    let m ← loadMarkdown events source
    let batch ← compiled (compileOptions settings source) m
    return printLine (if pretty then batch.indented else batch.compact)
  | .insert id source service dryRun => do
    let m ← loadMarkdown events source
    let o := compileOptions settings source
    if dryRun then
      let batch ← compiled o m
      return printLine batch.indented
    else
      let client ← connect settings service
      return report (← hold client rejectionFailure (.insert o id m))
  | .apply id requests service => do
    let text ← readText (some requests)
    match Json.parse? text with
    | none =>
      throw { message := "Failed to parse batch JSON from " ++ requests, causes := ["invalid JSON"] }
    | some body =>
      let client ← connect settings service
      return report (← hold client rejectionFailure (.apply id body))
  | .clear id start stop service dryRun => do
    let client ← connect settings service
    if dryRun then
      let edits ← hold client submitFailure (.clearRange id start stop)
      return printLine (batchJson edits).indented
    else return report (← hold client rejectionFailure (.clear id start stop))

def versionText : String := "mdbatch 0.1.0"

def helpText : String := "Usage: mdbatch [--config FILE] compile|insert|apply|clear ..."

def runRequest (events : String → List SourceEvent) (e : Environment) :
    Request → CommandProgram Printed
  | .version => return printLine versionText
  | .help => return printLine helpText
  | .run config command => do
    let settings ← Program.mapError configFailure (Settings.load e config)
    runCommand events settings command

/-- A run of the program. `events` reads the event stream of a Markdown text. -/
def run (events : String → List SourceEvent) (e : Environment) (args : List String) :
    Dialogue machine Exit :=
  match request? (e.get? "MDBATCH_ACCESS_TOKEN") none args with
  | none => .done .usage
  | some request =>
    (runRequest events e request).run.bind fun
      | .ok printed => .done (.ofPrinted printed)
      | .error failure => .done (.ofFailure failure)

end MarkdownEdits.CommandLine
