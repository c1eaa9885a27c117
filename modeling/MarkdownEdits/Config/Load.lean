import MarkdownEdits.Config.Expansion
import MarkdownEdits.Config.Settings
import MarkdownEdits.Machine
import MarkdownEdits.Text.Blank

/-!
# Loading settings

Settings come from a file, if there is one, and the access token from the file that the settings
name.
-/

namespace MarkdownEdits

inductive ConfigError
  | read (path : String) (cause : FileError)
  | parse (path : String)
  | token (path : String) (cause : FileError)
  deriving DecidableEq, Repr, Inhabited

/-- What the text of a configuration file is refused with. -/
def tomlFault : String := "TOML parse error"

def ConfigError.message : ConfigError → String
  | .read path cause => s!"Failed to read config file at {path}: {cause.message}"
  | .parse path => s!"Failed to parse config file at {path}: {tomlFault}"
  | .token path cause => s!"Failed to read access token from {path}: {cause.message}"

namespace Settings

/-- The file that is read when no other is named. -/
def defaultPath (e : Environment) : String :=
  Expansion.home e "~/.config/mdbatch" ++ "/config.toml"

/-- The settings with the path of the token file expanded, where that can be done. -/
def expandTokenFile (e : Environment) (s : Settings) : Settings :=
  let tokenFile := s.service.tokenFile.map fun path => (Expansion.full? e path).getD path
  { s with service := { s.service with tokenFile } }

/-- The settings in a file; none where there is no file. -/
def load? (e : Environment) (path : String) : Program ConfigError (Option Settings) := do
  if ← Program.fileExists path then
    let text ← Program.mapError (.read path) (Program.readFile path)
    match parse? text with
    | some s => return some (s.expandTokenFile e)
    | none => throw (.parse path)
  else return none

/-- The settings in the named file, or in the default one; without a file the defaults. -/
def load (e : Environment) (path : Option String) : Program ConfigError Settings := do
  return (← load? e (path.getD (defaultPath e))).getD {}

/-- The access token in the token file; a blank file holds none. -/
def readToken (s : Settings) : Program ConfigError (Option String) :=
  match s.service.tokenFile with
  | none => return none
  | some path => do
    let text ← Program.mapError (.token path) (Program.readFile path)
    let token := Text.trim text
    return if token = "" then none else some token

end Settings

end MarkdownEdits
