import BlockCompiler.Text.Lines

set_option autoImplicit false

/-! # C types of variables

The types that generated variables can have, and the guess of a type from the text of the first
value assigned. -/

namespace BlockCompiler

/-- The type of a generated variable. -/
inductive CType where
  | int
  | float
  /-- A buffer of characters, whose length is kept apart. -/
  | char
  | charPointer
  deriving Repr, DecidableEq

namespace CType

/-- The type as C writes it. -/
def name : CType → String
  | .int => "int"
  | .float => "float"
  | .char => "char"
  | .charPointer => "char *"

/-- How many bytes stand in front of the first double quote. -/
def quoteOffset? : List Char → Option Nat
  | [] => none
  | c :: cs => if c = '"' then some 0 else (quoteOffset? cs).map (· + c.utf8Size)

/-- Guesses a type from the text of an assigned value: by the type names that occur in it, then by
a quote near the start, then by a point. Keywords win even inside a string literal. -/
def sniff (text : String) : CType :=
  let cs := text.toList
  if Text.occurs "int".toList cs then .int
  else if Text.occurs "float".toList cs then .float
  else if Text.occurs "char".toList cs then .charPointer
  else if (quoteOffset? cs).any (· < 3) then .charPointer
  else if cs.contains '.' then .float
  else .int

end CType

end BlockCompiler
