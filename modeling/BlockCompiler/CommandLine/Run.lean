import BlockCompiler.CommandLine.Arguments
import BlockCompiler.Document
import BlockCompiler.Report

set_option autoImplicit false

/-! # Running the compiler

What a command line does: find the document, read it, compile it, write the report and the program.
The run is written for any parser, and for any host that can read and write files and show text, so that
it can be carried out on a real file system as well as on a `FileTree`. -/

namespace BlockCompiler.CommandLine

/-- Why a file cannot be read or written. -/
inductive FileError where
  | notFound
  | isDirectory
  | notDirectory
  /-- The file is not UTF-8. -/
  | notText
  | other
  deriving Repr, DecidableEq

/-- The wording of a file error. -/
def FileError.message : FileError → String
  | .notFound => "no such file or directory"
  | .isDirectory => "is a directory"
  | .notDirectory => "not a directory"
  | .notText => "the file is not valid UTF-8"
  | .other => "the file cannot be accessed"

/-- What a run needs from its surroundings. -/
structure Host (m : Type → Type) where
  /-- The full name of the regular file at a path, if there is one. -/
  locate : String → m (Option String)
  readText : String → m (Except FileError String)
  writeText : String → String → m (Except FileError Unit)
  /-- Shows a line of progress. -/
  note : String → m Unit
  /-- Shows a program. -/
  print : String → m Unit

/-- Why a run fails. -/
inductive Failure where
  | inputNotFound (path : String)
  | unreadable (path : String) (cause : FileError)
  | invalidDocument (path : String) (cause : LoadError)
  | unwritable (path : String) (cause : FileError)
  /-- There were diagnostics, and the run was strict. -/
  | reported (count : Nat)
  deriving Repr, DecidableEq

namespace Failure

/-- The wording of a failure, without its cause. -/
def message : Failure → String
  | .inputNotFound path => "Input file not found: '" ++ path ++ "'."
  | .unreadable path _ => "Failed to read '" ++ path ++ "'."
  | .invalidDocument path _ => "Invalid workspace XML in '" ++ path ++ "'."
  | .unwritable path _ => "Failed to write '" ++ path ++ "'."
  | .reported count =>
    toString count ++ " diagnostic(s) reported; failing because of --strict."

/-- The file error behind a failure. -/
def fileCause? : Failure → Option FileError
  | .unreadable _ cause => some cause
  | .unwritable _ cause => some cause
  | _ => none

/-- The fault of the document behind a failure. -/
def loadCause? : Failure → Option LoadError
  | .invalidDocument _ cause => some cause
  | _ => none

end Failure

/-! ## Progress -/

/-- A bar of `width` characters, filled in proportion and rounded to nearest. -/
def progressBar (step total width : Nat) : String :=
  let filled := (step * width + total / 2) / total
  "[" ++ String.ofList (List.replicate (min filled width) '=' ++
    List.replicate (width - filled) '-') ++ "]"

/-- The line shown when a step begins. -/
def progressLine (label : String) (step total : Nat) : String :=
  "[Compile] " ++ label ++ "... (" ++ toString step ++ "/" ++ toString total ++ ") " ++
    progressBar step total 14 ++ "\n"

/-- How many steps a run has. -/
def Arguments.steps (a : Arguments) : Nat := if a.report?.isSome then 5 else 4

/-! ## The run -/

variable {m : Type → Type} [Monad m] (parse : Markup.Parser) (host : Host m) (a : Arguments)

/-- Shows the line of a step. -/
def begin (label : String) (step : Nat) : ExceptT Failure m Unit :=
  ExceptT.lift (host.note (progressLine label step a.steps))

/-- The full name of the document. -/
def locateInput : ExceptT Failure m String := do
  match ← ExceptT.lift (host.locate a.input) with
  | some path => return path
  | none => throw (.inputNotFound a.input)

/-- Reads the document. -/
def readDocument (path : String) : ExceptT Failure m Document := do
  match ← ExceptT.lift (host.readText path) with
  | .error cause => throw (.unreadable path cause)
  | .ok source =>
    match Document.load parse source with
    | .ok document => return document
    | .error cause => throw (.invalidDocument path cause)

/-- Writes a file. -/
def writeFile (path text : String) : ExceptT Failure m Unit := do
  match ← ExceptT.lift (host.writeText path text) with
  | .ok _ => return
  | .error cause => throw (.unwritable path cause)

/-- Writes the report, if one is asked for. -/
def deliverReport (program : Program) : ExceptT Failure m Unit := do
  match a.report? with
  | none => return
  | some path =>
    begin host a "Writing diagnostics" 4
    writeFile host path (Report.text program.diagnostics)

/-- Writes the program, or prints it. -/
def deliverProgram (program : Program) : ExceptT Failure m Unit := do
  match a.output? with
  | some path =>
    begin host a "Writing program" a.steps
    writeFile host path program.source
  | none =>
    begin host a "Printing program" a.steps
    ExceptT.lift (host.print program.source)

/-- Carries a command line out. The outputs are written before a strict run fails. -/
def run : ExceptT Failure m Unit := do
  begin host a "Resolving input path" 1
  let path ← locateInput host a
  begin host a "Loading workspace" 2
  let document ← readDocument parse host path
  begin host a "Generating C source" 3
  let program := (document.project a.board?).compile
  deliverReport host a program
  deliverProgram host a program
  if a.strict && !program.diagnostics.isEmpty then
    throw (.reported program.diagnostics.length)

end BlockCompiler.CommandLine
