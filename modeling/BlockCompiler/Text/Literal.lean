import BlockCompiler.Text.Blank
import BlockCompiler.Text.Integer

set_option autoImplicit false

/-! # Integer literals in C text

Recognising a piece of C that is a plain decimal integer, possibly signed and in parentheses. -/

namespace BlockCompiler.Text

/-- Takes off blanks and outer parentheses, up to `fuel` pairs. -/
def peel : Nat → List Char → List Char
  | 0, cs => trim cs
  | fuel + 1, cs =>
    match trim cs with
    | '(' :: rest => if rest.getLast? == some ')' then peel fuel rest.dropLast else '(' :: rest
    | bare => bare

/-- The value of a piece of C that is a decimal integer of 64 bits inside any number of
parentheses. -/
def intLiteral? (code : String) : Option Int :=
  signed? 10 (peel code.toList.length code.toList)

end BlockCompiler.Text
