import BlockCompiler.Ledger
import BlockCompiler.Text.Blank
import BlockCompiler.Text.Integer

set_option autoImplicit false

/-! # Blocks

One block of a workspace: its type, the texts of its fields, the blocks plugged into its sockets
and the block below it. Links are numbers of blocks in the workspace. -/

namespace BlockCompiler

/-- The number of a block in its workspace. -/
abbrev BlockId := Nat

/-- A block of a workspace. -/
structure Block where
  /-- The name that the editor gave the block. -/
  id : String
  /-- The name of the block's type, which need not be a known one. -/
  type : String
  fields : Ledger String := {}
  /-- Blocks plugged into value sockets. -/
  values : Ledger BlockId := {}
  /-- Heads of the stacks held by statement sockets. -/
  statements : Ledger BlockId := {}
  /-- The next block of the stack. -/
  next : Option BlockId := none
  /-- Attributes that change the block's form. -/
  mutation : Ledger String := {}
  disabled : Bool := false
  x : Int := 0
  y : Int := 0
  deriving Repr, DecidableEq

namespace Block

/-- The text of a field. -/
def field? (b : Block) (name : String) : Option String := b.fields.get? name

/-- The text of a field that holds more than blanks, or else `fallback`. -/
def fieldOr (b : Block) (name fallback : String) : String :=
  match b.field? name with
  | some text => if Text.allBlank text.toList then fallback else text
  | none => fallback

/-- The greatest count that a mutation can hold. -/
def greatestCount : Nat := 18446744073709551615

/-- A mutation attribute as a count; what is no count counts as zero. -/
def mutationCount (b : Block) (name : String) : Nat :=
  ((b.mutation.get? name).bind fun text =>
    Text.unsigned? greatestCount (Text.trim text.toList)).getD 0

theorem mutationCount_le (b : Block) (name : String) :
    b.mutationCount name ≤ greatestCount := by
  unfold mutationCount
  cases hcount : (b.mutation.get? name).bind fun text =>
      Text.unsigned? greatestCount (Text.trim text.toList) with
  | none => exact Nat.zero_le _
  | some n =>
    obtain ⟨text, -, hread⟩ := Option.bind_eq_some_iff.1 hcount
    exact of_decide_eq_true (Option.filter_eq_some_iff.1 hread).2

end Block

end BlockCompiler
