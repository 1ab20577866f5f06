import BlockCompiler.Decimal.Numeral

set_option autoImplicit false

/-! # Binary floating point of 64 bits

The machine number nearest to a decimal numeral, and the integer nearest to a machine number, in
exact arithmetic on natural numbers. A finite number is `mantissa * 2 ^ exponent` with a mantissa
below `2 ^ 53`; `2 ^ 52 ≤ mantissa` holds unless the exponent is the least one. -/

namespace BlockCompiler.Decimal

/-- A floating-point number. -/
inductive Binary64 where
  | finite (negative : Bool) (mantissa : Nat) (exponent : Int)
  | infinite (negative : Bool)
  | undefined
  deriving Repr, DecidableEq

namespace Binary64

/-- The exponent of the numbers nearest to zero. -/
def leastExponent : Int := -1074

/-- The exponent of the greatest numbers. -/
def greatestExponent : Int := 971

/-- A positive fraction, as numerator and denominator, times a power of `base`. -/
def scale (base : Nat) (fraction : Nat × Nat) (exponent : Int) : Nat × Nat :=
  if 0 ≤ exponent then
    (fraction.1 * base.pow exponent.toNat, fraction.2)
  else
    (fraction.1, fraction.2 * base.pow (-exponent).toNat)

/-- The greatest `k` with `2 ^ k` at most a positive fraction. -/
def floorLog2 (fraction : Nat × Nat) : Int :=
  let guess : Int := (fraction.1.log2 : Int) - (fraction.2.log2 : Int)
  let (num, den) := scale 2 fraction (-guess)
  if den ≤ num then guess else guess - 1

/-- The integer nearest to a quotient; a half goes to the even neighbour. -/
def roundEven (num den : Nat) : Nat :=
  let floor := num / den
  let rest := 2 * (num % den)
  if rest < den then floor
  else if den < rest then floor + 1
  else floor + floor % 2

/-- The machine number nearest to a positive fraction. -/
def nearest (negative : Bool) (fraction : Nat × Nat) : Binary64 :=
  let exponent := max (floorLog2 fraction - 52) leastExponent
  let (num, den) := scale 2 fraction (-exponent)
  let mantissa := roundEven num den
  let (mantissa, exponent) :=
    if mantissa = 1 <<< 53 then (1 <<< 52, exponent + 1) else (mantissa, exponent)
  if greatestExponent < exponent then .infinite negative
  else .finite negative mantissa exponent

/-- The machine number nearest to what a numeral denotes. Numerals of more than 310 digits before
the point are beyond every machine number, and those with 400 zeros behind it are nearest to zero. -/
def ofNumeral : Numeral → Binary64
  | .infinite negative => .infinite negative
  | .undefined => .undefined
  | .finite negative coefficient exponent =>
    if coefficient = 0 then
      .finite negative 0 leastExponent
    else
      let size : Int := (Nat.toDigits 10 coefficient).length + exponent
      if 310 < size then .infinite negative
      else if size < -400 then .finite negative 0 leastExponent
      else nearest negative (scale 10 (coefficient, 1) exponent)

/-- The machine number that a text denotes. -/
def ofChars? (cs : List Char) : Option Binary64 := (Numeral.ofChars? cs).map ofNumeral

/-- The nearest integer, a half going away from zero, held to 64 bits; no number counts as zero. -/
def toInteger : Binary64 → Int
  | .undefined => 0
  | .infinite negative => if negative then Text.least else Text.greatest
  | .finite negative mantissa exponent =>
    let (num, den) := scale 2 (mantissa, 1) exponent
    let size : Nat := (2 * num + den) / (2 * den)
    Text.clamp (if negative then -(size : Int) else (size : Int)) Text.least Text.greatest

end Binary64

end BlockCompiler.Decimal
