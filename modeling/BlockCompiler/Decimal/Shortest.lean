import BlockCompiler.Decimal.Binary64

set_option autoImplicit false

/-! # The shortest decimal text of a machine number

The fewest digits that read back as the same number, and of those the nearest; a tie between two
goes to the greater. Digits are looked for on the decimal grids of one digit, two digits and so on:
the first grid with a point among the reals that round to the number gives them. Text is always
positional. -/

namespace BlockCompiler.Decimal

/-- The reals that round to a positive machine number, all over one denominator. -/
structure Cell where
  low : Nat
  value : Nat
  high : Nat
  den : Nat
  /-- Whether the ends round to the number too, which they do for an even mantissa. -/
  closed : Bool
  deriving Repr

namespace Cell

/-- The cell of `mantissa * 2 ^ exponent`. The gap below a power of two is half the one above. -/
def ofFinite (mantissa : Nat) (exponent : Int) : Cell :=
  let below := if mantissa = 1 <<< 52 then 1 else 2
  let (unit, den) := Binary64.scale 2 (1, 1) (exponent - 2)
  { low := (4 * mantissa - below) * unit
    value := 4 * mantissa * unit
    high := (4 * mantissa + 2) * unit
    den
    closed := mantissa % 2 == 0 }

/-- Whether a fraction lies in the cell. -/
def holds (c : Cell) (num den : Nat) : Bool :=
  if c.closed then
    c.low * den ≤ num * c.den && num * c.den ≤ c.high * den
  else
    c.low * den < num * c.den && num * c.den < c.high * den

/-- The least `e` with the cell's value below `10 ^ e`. -/
def magnitude (c : Cell) : Int :=
  let guess := Binary64.floorLog2 (c.value, c.den) * 30103 / 100000
  let isAbove (e : Int) : Bool :=
    let (num, den) := Binary64.scale 10 (1, 1) e
    c.value * den < num * c.den
  ([guess - 1, guess, guess + 1].find? isAbove).getD (guess + 2)

/-- The grid of multiples of `10 ^ e`: the point of it in the cell that is nearest to the value, as
a multiple. -/
def gridPoint? (c : Cell) (e : Int) : Option Nat :=
  let (num, den) := Binary64.scale 10 (1, 1) e
  let lower := c.value * den / (c.den * num)
  let upper := lower + 1
  match c.holds (lower * num) den, c.holds (upper * num) den with
  | true, true =>
    let midpoint := (lower + upper) * num * c.den
    some (if 2 * c.value * den < midpoint then lower else upper)
  | true, false => some lower
  | false, true => some upper
  | false, false => none

/-- The first grid with a point in the cell, from the coarsest on; 17 digits always suffice. A one
digit grid may answer with its tenth point, which is a single digit one place higher. -/
def shortest (c : Cell) : Nat × Int :=
  let top := c.magnitude
  let grids := (List.range 17).map fun n => top - ((n : Nat) : Int) - 1
  match grids.findSome? fun e => (c.gridPoint? e).map fun k => (k, e) with
  | some (digits, e) => if digits = 10 then (1, e + 1) else (digits, e)
  | none => (0, 0)

end Cell

/-- `digits * 10 ^ exponent` written out with a point where one is needed. -/
def positional (digits : Nat) (exponent : Int) : List Char :=
  let ds := Nat.toDigits 10 digits
  if 0 ≤ exponent then
    ds ++ List.replicate exponent.toNat '0'
  else
    let places := (-exponent).toNat
    if ds.length ≤ places then
      '0' :: '.' :: (List.replicate (places - ds.length) '0' ++ ds)
    else
      ds.take (ds.length - places) ++ '.' :: ds.drop (ds.length - places)

/-- The shortest text of a finite number. -/
def shortestText (negative : Bool) (mantissa : Nat) (exponent : Int) : String :=
  let body :=
    if mantissa = 0 then
      ['0']
    else
      let (digits, power) := (Cell.ofFinite mantissa exponent).shortest
      positional digits power
  String.ofList (if negative then '-' :: body else body)

end BlockCompiler.Decimal
