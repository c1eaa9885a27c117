import MarkdownEdits.Files
import MarkdownEdits.Text.Lines

/-!
# File trees

A directory with the files in it, and what a path leads to that starts there.
-/

namespace MarkdownEdits

/-- The files under the directory `root`, each with the names on the way to it. A directory exists
where a file is in it. -/
structure FileTree where
  root : String
  files : List (List String × List UInt8)
  deriving Repr, Inhabited

inductive FileEntry
  | file (bytes : List UInt8)
  | directory
  deriving DecidableEq, Repr, Inhabited

namespace FileTree

/-- The names between the slashes of a path. -/
def splitPath (path : String) : List String :=
  (Text.split (· == '/') path.toList).map String.ofList

/-- A tree of files under paths relative to its root. -/
def ofFiles (root : String) (files : List (String × List UInt8)) : FileTree :=
  ⟨root, files.map fun (path, bytes) => (splitPath path, bytes)⟩

/-- What stands at the end of a list of names. -/
def entry? (t : FileTree) (place : List String) : Option FileEntry :=
  match t.files.lookup place with
  | some bytes => some (.file bytes)
  | none =>
    if place = [] ∨ t.files.any fun f => place.isPrefixOf f.1 then some .directory else none

/-- Follows names from a place in the tree. Nothing above the root is known. -/
def follow (t : FileTree) (place : List String) : List String → Except FileError FileEntry
  | [] =>
    match t.entry? place with
    | some e => .ok e
    | none => .error .notFound
  | name :: rest =>
    match t.entry? place with
    | none => .error .notFound
    | some (.file _) => .error .notDirectory
    | some .directory =>
      if name = "" ∨ name = "." then t.follow place rest
      else if name = ".." then
        if place = [] then .error .notFound else t.follow place.dropLast rest
      else t.follow (place ++ [name]) rest

/-- What a path leads to. It starts at the root, or is absolute and leads through it. -/
def resolve (t : FileTree) (path : String) : Except FileError FileEntry :=
  if path = "" then .error .notFound
  else if path = t.root then t.follow [] []
  else if (t.root ++ "/").toList.isPrefixOf path.toList then
    t.follow [] (splitPath (.ofList (path.toList.drop (t.root.length + 1))))
  else if path.toList.head? = some '/' then .error .notFound
  else t.follow [] (splitPath path)

def fileExists (t : FileTree) (path : String) : Bool := (t.resolve path).toBool

def read (t : FileTree) (path : String) : Except FileError (List UInt8) := do
  match ← t.resolve path with
  | .file bytes => return bytes
  | .directory => throw .isDirectory

end FileTree

end MarkdownEdits
