import MarkdownEdits.Text.Alphanumeric

/-!
# Path expansion

Variables in a path are replaced by their values, and a tilde at its head by the home directory. A
variable that has no value leaves the path unexpanded.
-/

namespace MarkdownEdits

/-- The variables of the process; `HOME` names the home directory. -/
structure Environment where
  entries : List (String × String)
  deriving Repr, Inhabited

def Environment.get? (e : Environment) (name : String) : Option String := e.entries.lookup name

namespace Expansion

def isNameChar (c : Char) : Bool := Text.isAlphanumeric c || c == '_'

/-- The parts before and behind the first `:-`. -/
def splitDefault : List Char → Option (List Char × List Char)
  | [] => none
  | ':' :: '-' :: rest => some ([], rest)
  | c :: rest => (splitDefault rest).map fun (name, text) => (c :: name, text)

/-- The value of what stands between braces: a name, or a name with a text to use where it has no
value. A text without a name before it is no such text. -/
def bracedValue? (e : Environment) (inner : List Char) : Option String :=
  match splitDefault inner with
  | some (c :: name, text) => some ((e.get? (.ofList (c :: name))).getD (.ofList text))
  | _ => e.get? (.ofList inner)

/-- Replaces the variables; each step takes at least one character. -/
def variablesFrom? (e : Environment) : Nat → List Char → Option (List Char)
  | 0, cs => some cs
  | _, [] => some []
  | fuel + 1, '$' :: rest =>
    match rest with
    | '$' :: rest => (variablesFrom? e fuel rest).map ('$' :: ·)
    | '\x7b' :: inner =>
      if inner.contains '\x7d' then do
        let value ← bracedValue? e (inner.takeWhile (· != '\x7d'))
        let more ← variablesFrom? e fuel ((inner.dropWhile (· != '\x7d')).drop 1)
        return value.toList ++ more
      else (variablesFrom? e fuel inner).map fun more => '$' :: '\x7b' :: more
    | _ =>
      match rest.takeWhile isNameChar with
      | [] => (variablesFrom? e fuel rest).map ('$' :: ·)
      | name => do
        let value ← e.get? (.ofList name)
        let more ← variablesFrom? e fuel (rest.dropWhile isNameChar)
        return value.toList ++ more
  | fuel + 1, c :: rest => (variablesFrom? e fuel rest).map (c :: ·)

def variables? (e : Environment) (path : String) : Option String :=
  (variablesFrom? e path.length path.toList).map String.ofList

/-- Replaces a tilde that stands alone or before a slash. -/
def home (e : Environment) (path : String) : String :=
  match path.toList, e.get? "HOME" with
  | ['~'], some dir => dir
  | '~' :: '/' :: rest, some dir => dir ++ "/" ++ .ofList rest
  | _, _ => path

/-- The expansion of a path, if all its variables have values. A tilde that comes out of a variable
stays. -/
def full? (e : Environment) (path : String) : Option String :=
  (variables? e path).map fun expanded =>
    if path.toList.head? = some '~' then home e expanded else expanded

end Expansion

end MarkdownEdits
