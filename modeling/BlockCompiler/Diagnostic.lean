set_option autoImplicit false

/-! # Diagnostics

What the compiler has to say about a block, and the two lines that say it. -/

namespace BlockCompiler

/-- How serious a diagnostic is. -/
inductive Severity where
  | warning
  | error
  deriving Repr, DecidableEq

namespace Severity

/-- The word in front of a message. -/
def label : Severity → String
  | .warning => "WARNING"
  | .error => "ERROR"

/-- The word in a report. -/
def word : Severity → String
  | .warning => "warning"
  | .error => "error"

end Severity

/-- A message about a block. -/
structure Diagnostic where
  severity : Severity
  /-- The name that the editor gave the block. -/
  blockId : String
  blockType : String
  message : String
  deriving Repr, DecidableEq

namespace Diagnostic

/-- The comment line that stands in the program in place of the block's code. -/
def comment (d : Diagnostic) : String := "// " ++ d.severity.label ++ ": " ++ d.message ++ "\n"

/-- The line shown to the user, which names the block. -/
def display (d : Diagnostic) : String :=
  d.severity.label ++ ": " ++ d.message ++ " (block '" ++ d.blockId ++ "' of type " ++
    d.blockType ++ ")"

end Diagnostic

end BlockCompiler
