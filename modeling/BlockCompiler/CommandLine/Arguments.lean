import BlockCompiler.Board

set_option autoImplicit false

/-! # Command-line arguments

Reading the words of a command line. An option's value or a positional word is only judged when the
next argument begins or the line ends, so of two faults in a line the one that completes first is
reported; an unknown argument is reported at once. -/

namespace BlockCompiler.CommandLine

/-- What a command line asks for. -/
structure Arguments where
  /-- The document to compile. -/
  input : String
  /-- Where the program goes; it is printed when there is no such place. -/
  output? : Option String := none
  board? : Option Board := none
  /-- Where the report of diagnostics goes. -/
  report? : Option String := none
  /-- Whether any diagnostic makes the run fail. -/
  strict : Bool := false
  verbose : Bool := false
  deriving Repr, DecidableEq

/-- Why a command line is not carried out. -/
inductive UsageError where
  | helpRequested
  | missingInput
  | unknownArgument (word : String)
  | unknownBoard (board : Board.Unknown)
  /-- An argument has no value or an empty one. -/
  | missingValue (argument : String)
  | repeated (argument : String)
  /-- A value is attached to a flag. -/
  | unexpectedValue (argument : String)
  deriving Repr, DecidableEq

/-- The wording of a fault. -/
def UsageError.message : UsageError → String
  | .helpRequested =>
    "Usage: [OPTIONS] <INPUT> [OUTPUT]\n\n" ++
    "Generates Propeller C from a Blockly workspace exported by the block editor.\n\n" ++
    "      --board <BOARD>            Target board\n" ++
    "      --diagnostics-json <PATH>  Write generation diagnostics as JSON to this path\n" ++
    "      --strict                   Exit with an error when any block was reported\n" ++
    "  -v, --verbose                  Log generation details to stderr\n" ++
    "  -h, --help                     Print help"
  | .missingInput => "the argument <INPUT> is missing"
  | .unknownArgument word => "unexpected argument '" ++ word ++ "'"
  | .unknownBoard board => board.message
  | .missingValue argument => "a value is required for " ++ argument
  | .repeated argument => argument ++ " cannot be given more than once"
  | .unexpectedValue argument => argument ++ " takes no value"

/-- The options that take a value. -/
inductive Setting where
  | board
  | report
  deriving Repr, DecidableEq

/-- The option as it is written. -/
def Setting.word : Setting → String
  | .board => "--board"
  | .report => "--diagnostics-json"

/-- The options that take none. -/
inductive Flag where
  | strict
  | verbose
  | help
  deriving Repr, DecidableEq

/-- The flag as it is written. -/
def Flag.word : Flag → String
  | .strict => "--strict"
  | .verbose => "--verbose"
  | .help => "--help"

/-- An argument that has begun and is not judged yet. -/
inductive Pending where
  | nothing
  | setting (setting : Setting)
  | settingValue (setting : Setting) (value : String)
  | input (path : String)
  | output (path : String)
  deriving Repr, DecidableEq

/-- What has been read of a command line. -/
structure Draft where
  input? : Option String := none
  output? : Option String := none
  board? : Option Board := none
  report? : Option String := none
  strict : Bool := false
  verbose : Bool := false
  pending : Pending := .nothing
  /-- How many positional words came. -/
  positionals : Nat := 0
  /-- Whether all words from here on are positional. -/
  onlyPositionals : Bool := false

namespace Draft

/-! ## Judging -/

/-- Takes the value of an option. -/
def set (d : Draft) (setting : Setting) (value : String) : Except UsageError Draft :=
  match setting with
  | .board =>
    if d.board?.isSome then
      .error (.repeated setting.word)
    else
      match Board.ofText value with
      | .ok board => .ok { d with board? := some board }
      | .error unknown => .error (.unknownBoard unknown)
  | .report =>
    if d.report?.isSome then .error (.repeated setting.word)
    else if value.isEmpty then .error (.missingValue setting.word)
    else .ok { d with report? := some value }

/-- Judges the argument that has begun last. -/
def settle (d : Draft) : Except UsageError Draft :=
  let rest := { d with pending := .nothing }
  match d.pending with
  | .nothing => .ok rest
  | .setting setting => .error (.missingValue setting.word)
  | .settingValue setting value => rest.set setting value
  | .input path =>
    if path.isEmpty then .error (.missingValue "<INPUT>") else .ok { rest with input? := some path }
  | .output path =>
    if path.isEmpty then .error (.missingValue "[OUTPUT]")
    else .ok { rest with output? := some path }

/-! ## Words -/

/-- Takes a flag. -/
def flag (d : Draft) (flag : Flag) : Except UsageError Draft := do
  let d ← d.settle
  match flag with
  | .help => throw .helpRequested
  | .strict => if d.strict then throw (.repeated flag.word) else return { d with strict := true }
  | .verbose =>
    if d.verbose then throw (.repeated flag.word) else return { d with verbose := true }

/-- Takes the letters of a word behind a single hyphen. -/
def letters (d : Draft) : List Char → Except UsageError Draft
  | [] => .ok d
  | c :: rest =>
    if c = 'v' then do
      let d ← d.flag .verbose
      d.letters rest
    else if c = 'h' then d.flag .help
    else .error (.unknownArgument (String.ofList ['-', c]))

/-- Takes a word behind two hyphens, with the value attached to it by an equals sign, if any. -/
def long (d : Draft) (word : String) (attached? : Option String) : Except UsageError Draft :=
  match [Setting.board, Setting.report].find? (·.word == word) with
  | some setting => do
    let d ← d.settle
    match attached? with
    | some value => d.set setting value
    | none => return { d with pending := .setting setting }
  | none =>
    match [Flag.strict, Flag.verbose, Flag.help].find? (·.word == word) with
    | some flag => if attached?.isSome then .error (.unexpectedValue word) else d.flag flag
    | none => .error (.unknownArgument word)

/-- Takes a positional word: first the input, then the output. -/
def positional (d : Draft) (word : String) : Except UsageError Draft :=
  match d.positionals with
  | 0 => do return { ← d.settle with pending := .input word, positionals := 1 }
  | 1 => do return { ← d.settle with pending := .output word, positionals := 2 }
  | _ => .error (.unknownArgument word)

/-- Takes a word without a leading hyphen: the value that an option waits for, or a positional. -/
def plain (d : Draft) (word : String) : Except UsageError Draft :=
  match d.pending with
  | .setting setting => .ok { d with pending := .settingValue setting word }
  | _ => d.positional word

/-- Takes the next word. -/
def take (d : Draft) (word : String) : Except UsageError Draft :=
  if d.onlyPositionals then
    d.positional word
  else
    match word.toList with
    | ['-', '-'] => .ok { d with onlyPositionals := true }
    | '-' :: '-' :: rest =>
      let name := String.ofList ('-' :: '-' :: rest.takeWhile (· != '='))
      match rest.dropWhile (· != '=') with
      | [] => d.long name none
      | _ :: value => d.long name (some (String.ofList value))
    | '-' :: c :: rest => d.letters (c :: rest)
    | _ => d.plain word

/-- The arguments of a complete line. -/
def finish (d : Draft) : Except UsageError Arguments := do
  let d ← d.settle
  match d.input? with
  | none => throw .missingInput
  | some input =>
    return { input, output? := d.output?, board? := d.board?, report? := d.report?,
             strict := d.strict, verbose := d.verbose }

end Draft

/-- Reads the words of a command line. -/
def Arguments.ofWords (words : List String) : Except UsageError Arguments := do
  let d ← words.foldlM Draft.take {}
  d.finish

end BlockCompiler.CommandLine
