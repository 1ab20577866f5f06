import BlockCompiler.CommandLine.Run
import BlockCompiler.CommandLine.Xml

set_option autoImplicit false

/-! # The compiler as a program -/

namespace BlockCompiler.CommandLine

/-- What an error of the file system means for a run. -/
def fileError : IO.Error → FileError
  | .noFileOrDirectory _ _ _ => .notFound
  | .inappropriateType _ _ _ => .isDirectory
  | _ => .other

/-- Carries out a file operation. -/
def attempt {α : Type} (operation : IO α) : IO (Except FileError α) := do
  try
    return .ok (← operation)
  catch failure =>
    return .error (fileError failure)

/-- Reads a file as UTF-8. -/
def readFile (path : String) : IO (Except FileError String) := do
  match ← attempt (IO.FS.readBinFile path) with
  | .ok bytes =>
    match String.fromUTF8? bytes with
    | some text => return .ok text
    | none => return .error .notText
  | .error cause => return .error cause

/-- The full name of a path that leads to a file. -/
def locateFile (path : String) : IO (Option String) := do
  let full ← IO.FS.realPath path
  if (← full.pathExists) && !(← full.isDir) then
    return some full.toString
  else
    return none

/-- The real file system, standard output and standard error. -/
def systemHost : Host IO where
  locate := locateFile
  readText := readFile
  writeText path text := attempt (IO.FS.writeFile path text)
  note line := IO.eprint line
  print text := IO.print text

/-- The lines that tell of a failure, the cause last. -/
def failureLines (failure : Failure) : List String :=
  [failure.message] ++ (failure.fileCause?.map FileError.message).toList ++
    (failure.loadCause?.map LoadError.message).toList

/-- Carries a command line out and gives the exit code. -/
def execute (words : List String) : IO UInt32 := do
  match Arguments.ofWords words with
  | .error .helpRequested =>
    IO.println UsageError.helpRequested.message
    return 0
  | .error usage =>
    IO.eprintln ("error: " ++ usage.message)
    return 2
  | .ok a =>
    match ← (run Markup.Element.ofDocument? systemHost a).run with
    | .ok _ => return 0
    | .error failure =>
      IO.eprintln ("Error: " ++ ": ".intercalate (failureLines failure))
      return 1

end BlockCompiler.CommandLine

/-- Compiles the document named on the command line. -/
def main (words : List String) : IO UInt32 :=
  BlockCompiler.CommandLine.execute words
