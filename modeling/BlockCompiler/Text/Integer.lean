set_option autoImplicit false

/-! # Integers in text

Reading whole numbers of a base, with the signs and the ranges that 64-bit words allow. -/

namespace BlockCompiler.Text

/-- The value of a digit of `base`; letters of either case follow `9`. -/
def digit? (base : Nat) (c : Char) : Option Nat :=
  let value? :=
    if '0' ≤ c && c ≤ '9' then some (c.toNat - 48)
    else if 'a' ≤ c && c ≤ 'z' then some (c.toNat - 87)
    else if 'A' ≤ c && c ≤ 'Z' then some (c.toNat - 55)
    else none
  value?.filter (· < base)

/-- The number whose leading digits stand for `value` and whose other digits follow. -/
def digitsFrom? (base : Nat) (value : Nat) : List Char → Option Nat
  | [] => some value
  | c :: cs => do digitsFrom? base (value * base + (← digit? base c)) cs

/-- One digit or more and nothing else. -/
def digits? (base : Nat) (cs : List Char) : Option Nat :=
  if cs.isEmpty then none else digitsFrom? base 0 cs

/-- Whether a minus sign leads, and what follows the sign. -/
def splitSign : List Char → Bool × List Char
  | '-' :: cs => (true, cs)
  | '+' :: cs => (false, cs)
  | cs => (false, cs)

/-- The least signed 64-bit integer. -/
def least : Int := -9223372036854775808

/-- The greatest signed 64-bit integer. -/
def greatest : Int := 9223372036854775807

/-- The magnitude of a signed 64-bit integer. That of the least one does not fit and leaves it as it
is. -/
def magnitude (n : Int) : Int := if n = least then least else n.natAbs

/-- An integer moved into `low` to `high`; the upper bound wins where they cross. -/
def clamp (value low high : Int) : Int := min (max value low) high

/-- A signed 64-bit integer: an optional sign and digits of `base`. -/
def signed? (base : Nat) (cs : List Char) : Option Int :=
  let (negative, digits) := splitSign cs
  let value? := (digits? base digits).map fun n : Nat => if negative then -(n : Int) else (n : Int)
  value?.filter fun n => least ≤ n && n ≤ greatest

/-- An unsigned decimal integer up to `limit`: an optional plus sign and digits. -/
def unsigned? (limit : Nat) (cs : List Char) : Option Nat :=
  let digits := match cs with
    | '+' :: rest => rest
    | _ => cs
  (digits? 10 digits).filter (· ≤ limit)

end BlockCompiler.Text
