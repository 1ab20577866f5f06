import BlockCompiler.Block
import BlockCompiler.Text.Case

set_option autoImplicit false

/-! # Modes of the repeat block

One block repeats a stack forever, a number of times, or under a condition; its mode decides which
socket it reads. -/

namespace BlockCompiler

/-- How often a repeat block runs its body. -/
inductive RepeatMode where
  | forever
  | times
  | whileTrue
  | untilTrue
  deriving Repr, DecidableEq

namespace RepeatMode

/-- The mode that a word names, in any case; an unknown word repeats forever. -/
def ofText (text : String) : RepeatMode :=
  let word := Text.asciiCapitals text
  if word == "TIMES" || word == "X_TIMES" then .times
  else if word == "WHILE" then .whileTrue
  else if word == "UNTIL" then .untilTrue
  else .forever

/-- The mode of a block: its mutation says, or else its field. -/
def ofBlock (b : Block) : RepeatMode :=
  ofText (((b.mutation.get? "type").orElse fun _ => b.field? "TYPE").getD "FOREVER")

/-- The value socket that the mode reads. -/
def socket? : RepeatMode → Option String
  | .forever => none
  | .times => some "TIMES"
  | .whileTrue => some "REPEAT_CONDITION"
  | .untilTrue => some "REPEAT_CONDITION"

end RepeatMode

end BlockCompiler
