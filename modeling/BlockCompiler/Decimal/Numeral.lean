import BlockCompiler.Text.Integer

set_option autoImplicit false

/-! # Decimal numerals

Numbers as people write them: a sign, digits with or without a point, and a power of ten. Reading
is exact; rounding to a machine number is left to `Decimal.Binary64`. -/

namespace BlockCompiler.Decimal

/-- What a numeral denotes. -/
inductive Numeral where
  /-- `coefficient * 10 ^ exponent`, negated if so marked; zero keeps its sign. -/
  | finite (negative : Bool) (coefficient : Nat) (exponent : Int)
  | infinite (negative : Bool)
  /-- The word `nan`. -/
  | undefined
  deriving Repr, DecidableEq

namespace Numeral

/-- The leading decimal digits and what follows them. -/
def spanDigits (cs : List Char) : List Char × List Char :=
  (cs.takeWhile Char.isDigit, cs.dropWhile Char.isDigit)

/-- The exponent that a numeral ends with: nothing, or `e` with an optional sign and digits. -/
def exponent? : List Char → Option Int
  | [] => some 0
  | c :: cs =>
    if c = 'e' || c = 'E' then
      let (negative, digits) := Text.splitSign cs
      (Text.digits? 10 digits).map fun n : Nat => if negative then -(n : Int) else (n : Int)
    else
      none

/-- The digits behind a point, when there is one, and what follows them. -/
def spanFraction : List Char → List Char × List Char
  | '.' :: cs => spanDigits cs
  | cs => ([], cs)

/-- An unsigned numeral with at least one digit before its exponent. -/
def unsigned? (negative : Bool) (cs : List Char) : Option Numeral := do
  let (whole, rest) := spanDigits cs
  let (fraction, rest) := spanFraction rest
  let coefficient ← Text.digits? 10 (whole ++ fraction)
  let exponent ← exponent? rest
  return .finite negative coefficient (exponent - fraction.length)

/-- A numeral, or a word for infinity or for no number in any case of letters. -/
def ofChars? (cs : List Char) : Option Numeral :=
  let (negative, body) := Text.splitSign cs
  let word := String.ofList (body.map Char.toLower)
  if word == "inf" || word == "infinity" then
    some (.infinite negative)
  else if word == "nan" then
    some .undefined
  else
    unsigned? negative body

end Numeral

end BlockCompiler.Decimal
