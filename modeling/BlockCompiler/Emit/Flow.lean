import BlockCompiler.Emit.Socket
import BlockCompiler.Identifier
import BlockCompiler.Variant.RepeatMode

set_option autoImplicit false

/-! # Control flow

Pauses, branches and loops. A counting loop with literal bounds knows its direction; otherwise the
bounds are evaluated once into temporaries and the direction is chosen when the program runs. -/

namespace BlockCompiler.Emit

variable (p : Project) (b : Block)

/-- Waits for a number of milliseconds. -/
def pause : Recipe String := do
  let time ← value p b "PAUSE_TIME" .anything
  return "pause(" ++ time ++ ");\n"

/-! ## Branches -/

/-- One condition of a branch block and the stack that it guards. -/
def guarded (n : Nat) : Recipe String := do
  let condition ← value p b ("IF" ++ toString n) .anything
  let stack ← body p b ("DO" ++ toString n)
  let keyword := if n = 0 then "if" else "\x7d else if"
  return keyword ++ " (" ++ condition ++ ") \x7b\n" ++ stack

/-- Whether a branch block has a last branch without a condition. -/
def hasElse : Bool := 0 < b.mutationCount "else" || b.statements.contains "ELSE"

/-- The last branch, if there is one. -/
def otherwise : Recipe String :=
  if hasElse b then do
    let stack ← body p b "ELSE"
    return "\x7d else \x7b\n" ++ stack
  else
    return ""

/-- How many conditions a branch block has: one more than it counts, in a word of 64 bits. -/
def conditionCount : Nat := (b.mutationCount "elseif" + 1) % (Block.greatestCount + 1)

/-- Runs the stack of the first condition that holds. -/
def branch : Recipe String := do
  Recipe.overflowUnless (b.mutationCount "elseif" < Block.greatestCount)
  let branches ← Recipe.concat ((List.range (conditionCount b)).map (guarded p b))
  let last ← otherwise p b
  return branches ++ last ++ "\x7d\n"

/-! ## Loops -/

/-- A loop around the block's stack. -/
def loop (head : String) : Recipe String := do
  let stack ← body p b "DO"
  return head ++ " \x7b\n" ++ stack ++ "\x7d\n"

/-- The head of a loop that counts to a limit. -/
def timesHead (counter limit : String) : String :=
  "for (int " ++ counter ++ " = 0; " ++ counter ++ " < " ++ limit ++ "; " ++ counter ++ "++)"

/-- The head of a repeat block's loop. -/
def repeatHead : Recipe String :=
  let mode := RepeatMode.ofBlock b
  let socket := mode.socket?.getD ""
  match mode with
  | .forever => return "while (1)"
  | .times => do
    let limit ← value p b socket .relational
    let counter ← Recipe.freshName "n"
    return timesHead counter limit
  | .whileTrue => do
    let condition ← value p b socket .anything
    return "while (" ++ condition ++ ")"
  | .untilTrue => do
    let condition ← value p b socket .unaryPrefix
    return "while (!" ++ condition ++ ")"

/-- Repeats a stack. -/
def repeatLoop : Recipe String := do
  let head ← repeatHead p b
  loop p b head

/-- The head of a counting loop whose bounds and step are known: it runs towards `last` in steps of
at least one. -/
def literalHead (name : String) (first last step : Int) : String :=
  let stride := toString (max (Text.magnitude step) 1)
  let (test, move) := if first ≤ last then (" <= ", " += ") else (" >= ", " -= ")
  "for (" ++ name ++ " = " ++ toString first ++ "; " ++ name ++ test ++ toString last ++ "; " ++
    name ++ move ++ stride ++ ")"

/-- The head of a counting loop whose bounds and step are in temporaries. -/
def computedHead (name first last step : String) : String :=
  let ascends := first ++ " <= " ++ last ++ " ? "
  "for (" ++ name ++ " = " ++ first ++ "; " ++ ascends ++ name ++ " <= " ++ last ++ " : " ++ name ++
    " >= " ++ last ++ "; " ++ name ++ " += " ++ ascends ++ step ++ " : -" ++ step ++ ")"

/-- The head of a counting loop whose bounds are only known when the program runs, behind the
declarations of its temporaries. -/
def temporaryHead (name start finish step : String) : Recipe String := do
  Recipe.ensure .includes "stdlib" "#include <stdlib.h>"
  let first ← Recipe.freshName "from"
  let last ← Recipe.freshName "to"
  let stride ← Recipe.freshName "by"
  return "int " ++ first ++ " = " ++ start ++ ";\nint " ++ last ++ " = " ++ finish ++ ";\nint " ++
    stride ++ " = abs(" ++ step ++ ");\n" ++ computedHead name first last stride

/-- The head of a counting loop. -/
def countingHead (name start finish step : String) : Recipe String :=
  match Text.intLiteral? start, Text.intLiteral? finish, Text.intLiteral? step with
  | some first, some last, some stride => do
    Recipe.overflowUnless (stride != Text.least)
    return literalHead name first last stride
  | _, _, _ => temporaryHead name start finish step

/-- Runs a stack for every number of a range. -/
def countingLoop : Recipe String := do
  let name := Identifier.ofName (p.field b "VAR")
  Recipe.perform (.setType name .int)
  let start ← value p b "START" .assignment
  let finish ← value p b "END" .assignment
  let step ← value p b "STEP" .anything
  let head ← countingHead name start finish step
  loop p b head

/-- Leaves the innermost loop. -/
def leaveLoop : Recipe String := return "break;\n"

end BlockCompiler.Emit
