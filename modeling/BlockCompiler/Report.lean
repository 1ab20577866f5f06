import BlockCompiler.Diagnostic

set_option autoImplicit false

/-! # Reports

The diagnostics of a program as a file for other tools: an object with their number and a list, names
in alphabetical order, moved in by two blanks a level. -/

namespace BlockCompiler.Report

/-- A hexadecimal digit in lower case. -/
def hexDigit (n : Nat) : Char := (Nat.toDigits 16 (n % 16)).headD '0'

/-- A character as it stands inside a quoted text. -/
def escapeChar (c : Char) : List Char :=
  if c = '"' then ['\\', '"']
  else if c = '\\' then ['\\', '\\']
  else if c = '\n' then ['\\', 'n']
  else if c = '\r' then ['\\', 'r']
  else if c = '\t' then ['\\', 't']
  else if c.toNat = 8 then ['\\', 'b']
  else if c.toNat = 12 then ['\\', 'f']
  else if c.toNat < 32 then ['\\', 'u', '0', '0', hexDigit (c.toNat / 16), hexDigit c.toNat]
  else [c]

/-- A quoted text. -/
def quote (text : String) : String :=
  "\"" ++ String.ofList (text.toList.flatMap escapeChar) ++ "\""

/-- A name with its text. -/
def member (name text : String) : String := quote name ++ ": " ++ quote text

/-- A diagnostic, standing two levels deep. -/
def entry (d : Diagnostic) : String :=
  let members := [member "block_id" d.blockId, member "block_type" d.blockType,
    member "message" d.message, member "severity" d.severity.word]
  "    \x7b\n      " ++ ",\n      ".intercalate members ++ "\n    \x7d"

/-- The list of diagnostics. -/
def list (diagnostics : List Diagnostic) : String :=
  if diagnostics.isEmpty then "[]"
  else "[\n" ++ ",\n".intercalate (diagnostics.map entry) ++ "\n  ]"

/-- The text of a report. -/
def text (diagnostics : List Diagnostic) : String :=
  "\x7b\n  " ++ quote "count" ++ ": " ++ toString diagnostics.length ++ ",\n  " ++
    quote "diagnostics" ++ ": " ++ list diagnostics ++ "\n\x7d"

end BlockCompiler.Report
