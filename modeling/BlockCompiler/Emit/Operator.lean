import BlockCompiler.Decimal.Shortest
import BlockCompiler.Emit.Socket
import BlockCompiler.Identifier
import BlockCompiler.Text.Quoted

set_option autoImplicit false

/-! # Numbers, operators and other values -/

namespace BlockCompiler.Emit

variable (p : Project) (b : Block)

/-! ## Constants -/

/-- A text with a point, which is added with a zero where it is missing. -/
def withPoint (text : String) : String := if text.toList.contains '.' then text else text ++ ".0"

/-- A floating-point constant; what is no finite number is zero. -/
def floatLiteral : Decimal.Binary64 → String
  | .finite negative mantissa exponent =>
    withPoint (Decimal.shortestText negative mantissa exponent)
  | _ => "0"

/-- Whether the characters are a hexadecimal number of 64 bits, which has a sign or none behind its
mark. -/
def isHexLiteral : List Char → Bool
  | '0' :: 'x' :: digits => (Text.signed? 16 digits).isSome
  | '0' :: 'X' :: digits => (Text.signed? 16 digits).isSome
  | _ => false

/-- The C constant for a number as the user wrote it: an integer without leading zeros, else a
floating-point constant, else a hexadecimal one as it is. What is no number is zero. -/
def numberLiteral (text : String) : String :=
  let cs := Text.trim text.toList
  match Text.signed? 10 cs with
  | some n => toString n
  | none =>
    match Decimal.Binary64.ofChars? cs with
    | some x => floatLiteral x
    | none => if isHexLiteral cs then String.ofList cs else "0"

/-- A number; a leading minus sign is an operator. -/
def number : Recipe Operand :=
  let literal := numberLiteral (p.field b "NUM")
  return ⟨literal, if literal.toList.head? == some '-' then .unaryPrefix else .atomic⟩

/-- A truth value. -/
def boolean : Recipe Operand := return .atom (if p.field b "BOOL" == "FALSE" then "0" else "1")

/-- A text. -/
def text : Recipe Operand := return .atom (Text.quote (p.field b "TEXT"))

/-- The counter of clock ticks. -/
def systemCounter : Recipe Operand := return .atom "CNT"

/-! ## Operators -/

/-- An operator between two operands, each wrapped for the operator. -/
def binary (sign : String) (order : Precedence) : Recipe Operand := do
  let left ← value p b "A" order
  let right ← value p b "B" order
  return ⟨left ++ " " ++ sign ++ " " ++ right, order⟩

/-- A call of the power function. -/
def power : Recipe Operand := do
  let base ← value p b "A" .anything
  let exponent ← value p b "B" .anything
  return .atom ("pow(" ++ base ++ ", " ++ exponent ++ ")")

/-- Arithmetic on two numbers. -/
def arithmetic : Recipe Operand :=
  match p.field b "OP" with
  | "MINUS" => binary p b "-" .additive
  | "MULTIPLY" => binary p b "*" .multiplicative
  | "DIVIDE" => binary p b "/" .multiplicative
  | "MODULUS" => binary p b "%" .multiplicative
  | "POWER" => power p b
  | _ => binary p b "+" .additive

/-- The lower or the higher of two numbers. -/
def limit : Recipe Operand := do
  let sign := if p.field b "OP" == "MAX" then ">" else "<"
  let left ← value p b "A" .relational
  let right ← value p b "B" .relational
  return ⟨left ++ " " ++ sign ++ " " ++ right ++ " ? " ++ left ++ " : " ++ right, .conditional⟩

/-- A random integer between two bounds. The generator is seeded once. -/
def random : Recipe Operand := do
  Recipe.ensure .setups "random_seed" "srand(INA + CNT);"
  let low ← value p b "A" .additive
  let high ← value p b "B" .additive
  return .atom ("(" ++ low ++ " + rand() % (" ++ high ++ " - " ++ low ++ " + 1))")

/-- Compares two numbers. -/
def compare : Recipe Operand :=
  match p.field b "OP" with
  | "NEQ" => binary p b "!=" .equality
  | "LT" => binary p b "<" .relational
  | "LTE" => binary p b "<=" .relational
  | "GT" => binary p b ">" .relational
  | "GTE" => binary p b ">=" .relational
  | _ => binary p b "==" .equality

/-- Joins two truth values. -/
def logic : Recipe Operand :=
  if p.field b "OP" == "OR" then binary p b "||" .logicalOr else binary p b "&&" .logicalAnd

/-- Negates a truth value. -/
def negate : Recipe Operand := do
  let operand ← value p b "BOOL" .unaryPrefix
  return ⟨"!" ++ operand, .unaryPrefix⟩

end BlockCompiler.Emit
