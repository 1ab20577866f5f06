import BlockCompiler.Text.Blank
import BlockCompiler.Text.Integer

set_option autoImplicit false

/-! # Colors of lights

A color is written as six hexadecimal digits, with or without a number sign in front. -/

namespace BlockCompiler.Color

/-- A text that is no color, trimmed. -/
structure Invalid where
  text : String
  deriving Repr, DecidableEq

/-- What is said of a text that is no color. -/
def Invalid.message (i : Invalid) : String := "\"" ++ i.text ++ "\" is not a #RRGGBB color"

/-- A hexadecimal digit of either case. -/
def isHexDigit (c : Char) : Bool := (Text.digit? 16 c).isSome

/-- The six digits of a trimmed text. -/
def digits? (cs : List Char) : Option (List Char) :=
  let digits := match cs with
    | '#' :: rest => rest
    | _ => cs
  if digits.length == 6 && digits.all isHexDigit then some digits else none

/-- The color of a text as a C literal in capitals. -/
def literal (text : String) : Except Invalid String :=
  match digits? (Text.trim text.toList) with
  | some digits => .ok (String.ofList ('0' :: 'x' :: digits.map Char.toUpper))
  | none => .error ⟨Text.trimmed text⟩

end BlockCompiler.Color
