import BlockCompiler.CommandLine.Run
import BlockCompiler.CommandLine.Xml

set_option autoImplicit false

/-! # File trees

A file system as a value: files and directories by the parts of their paths. A `Desk` is a host
with a file tree for its files that keeps what it was shown. -/

namespace BlockCompiler.CommandLine

/-- What a path leads to. -/
inductive Entry where
  | text (content : String)
  /-- A file that is not UTF-8. -/
  | binary
  | directory
  deriving Repr, DecidableEq

/-- Entries by the parts of their paths. The directories above an entry exist as well. -/
structure FileTree where
  entries : List (List String × Entry) := []
  deriving Repr, DecidableEq

namespace FileTree

/-- The parts of a path. -/
def parts (path : String) : List String :=
  (Text.pieces '/' path.toList).map String.ofList

/-- A path in full. -/
def fullName (place : List String) : String := "/".intercalate place

/-- What stands at a place. -/
def entry? (t : FileTree) (place : List String) : Option Entry :=
  match t.entries.lookup place with
  | some entry => some entry
  | none =>
    if place.isEmpty || t.entries.any (fun (other, _) => place.isPrefixOf other) then
      some .directory
    else
      none

/-- Follows the parts of a path from a directory. Only a last part may lead to a file. -/
def follow (t : FileTree) (place : List String) : List String → Except FileError (List String)
  | [] => .ok place
  | part :: rest =>
    if part == "" || part == "." then t.follow place rest
    else if part == ".." then t.follow place.dropLast rest
    else
      match t.entry? (place ++ [part]) with
      | none => .error .notFound
      | some .directory => t.follow (place ++ [part]) rest
      | some _ => if rest.isEmpty then .ok (place ++ [part]) else .error .notDirectory

/-- The place that a path leads to and what stands there. -/
def find (t : FileTree) (path : String) : Except FileError (List String × Entry) := do
  let place ← t.follow [] (parts path)
  match t.entry? place with
  | some entry => return (place, entry)
  | none => throw .notFound

/-- The full name of the regular file at a path. -/
def locate (t : FileTree) (path : String) : Option String :=
  match t.find path with
  | .ok (_, .directory) => none
  | .ok (place, _) => some (fullName place)
  | .error _ => none

/-- The content of a text file. -/
def readText (t : FileTree) (path : String) : Except FileError String := do
  match ← t.find path with
  | (_, .text content) => return content
  | (_, .binary) => throw .notText
  | (_, .directory) => throw .isDirectory

/-- The tree with a file written at a place. -/
def put (t : FileTree) (place : List String) (content : String) : FileTree :=
  ⟨t.entries.filter (fun (other, _) => other != place) ++ [(place, .text content)]⟩

/-- The directory that a file is to be written in; its last part is a file's name. -/
def parent (t : FileTree) (path : String) : Except FileError (List String) := do
  let place ← t.follow [] (parts path).dropLast
  match t.entry? place with
  | some .directory => return place
  | some _ => throw .notDirectory
  | none => throw .notFound

/-- Writes a text file in a directory that exists. -/
def writeText (t : FileTree) (path content : String) : Except FileError FileTree := do
  let directory ← t.parent path
  let name := (parts path).getLast?.getD ""
  if ["", ".", ".."].contains name then throw .isDirectory
  match t.entry? (directory ++ [name]) with
  | some .directory => throw .isDirectory
  | _ => return t.put (directory ++ [name]) content

end FileTree

/-- Files, and what was shown so far. -/
structure Desk where
  files : FileTree := {}
  printed : String := ""
  notes : String := ""
  deriving Repr, DecidableEq

namespace Desk

/-- The desk as a host. -/
def host : Host (StateM Desk) where
  locate path := do return (← get).files.locate path
  readText path := do return (← get).files.readText path
  writeText path content := do
    match (← get).files.writeText path content with
    | .ok files =>
      modify fun d => { d with files }
      return .ok ()
    | .error cause => return .error cause
  note line := modify fun d => { d with notes := d.notes ++ line }
  print text := modify fun d => { d with printed := d.printed ++ text }

/-- Carries a command line out on a desk, with a parser of its own. -/
def runWith (parse : Markup.Parser) (a : Arguments) (d : Desk) : Except Failure Unit × Desk :=
  (CommandLine.run parse host a).run.run d

/-- Carries a command line out on a desk. -/
def run (a : Arguments) (d : Desk) : Except Failure Unit × Desk := d.runWith Markup.Element.ofDocument? a

end Desk

end BlockCompiler.CommandLine
