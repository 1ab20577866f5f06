set_option autoImplicit false

/-! # Operator precedence

How tightly the outermost operator of a piece of C binds, and when a piece has to be put in
parentheses to stand where tighter binding is asked for. -/

namespace BlockCompiler

/-- Binding strength of an expression's outermost operator, tightest first. -/
inductive Precedence where
  | atomic
  | unaryPostfix
  | unaryPrefix
  | multiplicative
  | additive
  | shift
  | relational
  | equality
  | bitwiseAnd
  | bitwiseXor
  | bitwiseOr
  | logicalAnd
  | logicalOr
  | conditional
  | assignment
  /-- A place that takes any expression as it is. -/
  | anything
  deriving Repr, DecidableEq

namespace Precedence

/-- Position on the ladder; a higher level binds looser. -/
def level : Precedence → Nat
  | .atomic => 0
  | .unaryPostfix => 1
  | .unaryPrefix => 2
  | .multiplicative => 3
  | .additive => 4
  | .shift => 5
  | .relational => 6
  | .equality => 7
  | .bitwiseAnd => 8
  | .bitwiseXor => 9
  | .bitwiseOr => 10
  | .logicalAnd => 11
  | .logicalOr => 12
  | .conditional => 13
  | .assignment => 14
  | .anything => 99

/-- Whether an expression of strength `inner` is wrapped where `outer` is asked for: unless it
binds tighter. Atoms among atoms and any expression where everything goes stay bare. -/
def needsParens (inner outer : Precedence) : Bool :=
  if inner.level < outer.level then false
  else !(outer == inner && (outer == .atomic || outer == .anything))

/-- The expression as it stands where `outer` is asked for. -/
def wrap (code : String) (inner outer : Precedence) : String :=
  if needsParens inner outer then "(" ++ code ++ ")" else code

end Precedence

end BlockCompiler
