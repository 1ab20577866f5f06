import BlockCompiler.Project
import BlockCompiler.Recipe
import BlockCompiler.Text.Literal
import BlockCompiler.Variant.PinSource

set_option autoImplicit false

/-! # Reading sockets

How a block's recipe gets at what is plugged into the block: values wrapped for the place where they
stand, literal values clamped, pins, and indented stacks. -/

namespace BlockCompiler.Emit

variable (p : Project)

/-! ## Values -/

/-- The value plugged into a socket, if there is one. A block that yields statements is no value:
its diagnostic, or a warning about it, becomes a comment in front of the socket's default. -/
def operand (b : Block) (socket : String) : Recipe (Option Operand) :=
  match b.values.get? socket with
  | none => return none
  | some id =>
    match p.workspace.block? id with
    | none => return none
    | some child =>
      if child.disabled then
        return none
      else do
        match ← Recipe.code id with
        | .expression found => return some found
        | .statement text =>
          let comment ←
            if Comment.isDiagnostic text then pure text
            else Recipe.warning child "A statement block cannot be used as a value."
          return some (.atom (Comment.beforeValue comment (p.socketDefault b socket)))

/-- The value of a socket, or the default as an atom. -/
def operandOrDefault (b : Block) (socket : String) : Recipe Operand := do
  match ← operand p b socket with
  | some found => return found
  | none => return .atom (p.socketDefault b socket)

/-- The text of a socket's value where `outer` is asked for, if there is a value. -/
def value? (b : Block) (socket : String) (outer : Precedence) : Recipe (Option String) := do
  let found ← operand p b socket
  return found.map (·.within outer)

/-- The text of a socket's value where `outer` is asked for, or the default as it is. -/
def value (b : Block) (socket : String) (outer : Precedence) : Recipe String := do
  let found ← value? p b socket outer
  return found.getD (p.socketDefault b socket)

/-- The value of a socket with a literal clamped into `low` to `high`; what is only known when the
program runs stays as it is. -/
def clampedValue (b : Block) (socket : String) (low high : Int) (outer : Precedence) :
    Recipe String := do
  let found ← operandOrDefault p b socket
  match Text.intLiteral? found.text with
  | some n => return toString (Text.clamp n low high)
  | none => return found.within outer

/-- The number of a block's pin. -/
def pin (b : Block) (name : String) : Recipe String :=
  match PinSource.ofBlock b name with
  | .programmable => value p b name .anything
  | .fixed =>
    let chosen := p.field b name
    return if chosen.isEmpty then "0" else chosen

/-! ## Stacks -/

/-- The code of one member of a stack. A disabled block has none, and a value is dropped. -/
def member (id : BlockId) : Recipe String :=
  match p.workspace.block? id with
  | none => return ""
  | some b =>
    if b.disabled then
      return ""
    else do
      match ← Recipe.code id with
      | .statement text => return text
      | .expression _ => return ""

/-- The end of a stack: a warning if the stack runs into itself. -/
def chainEnd (repeated : Option BlockId) : Recipe String :=
  match repeated.bind p.workspace.block? with
  | some b => Recipe.warning b "Cyclic statement chain; stopped here."
  | none => return ""

/-- The code of the stack that a block heads. -/
def chain (head : BlockId) : Recipe String := do
  let stack := p.workspace.chainFrom head
  let body ← Recipe.concat (stack.members.map (member p))
  let close ← chainEnd p stack.repeated
  return body ++ close

/-- How far the code of a stack is moved in. -/
def indentation : String := "  "

/-- The stack in a statement socket, moved in. -/
def body (b : Block) (socket : String) : Recipe String :=
  match b.statements.get? socket with
  | none => return ""
  | some head => do
    let text ← chain p head
    return Text.indent text indentation

/-! ## Initializers -/

/-- A warning for block number `id` if its kind may be used once only and another block of the kind
comes first in program order. -/
def duplicateWarning? (id : BlockId) (b : Block) (kind : Kind) (label : String) :
    Recipe (Option String) :=
  match (p.inOrder kind).head? with
  | none => return none
  | some first =>
    if first == id then
      return none
    else do
      let line ← Recipe.warning b
        ("Only one " ++ label ++ " block may be used! This one is ignored.")
      return some line

/-- The code of an initializer: `setUp`, unless another block of the kind comes first. -/
def initializer (id : BlockId) (b : Block) (kind : Kind) (label : String) (setUp : Recipe String) :
    Recipe String := do
  match ← duplicateWarning? p id b kind label with
  | some line => return line
  | none => setUp

end BlockCompiler.Emit
