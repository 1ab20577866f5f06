import BlockCompiler.Definition.Catalog
import BlockCompiler.Workspace.Order

set_option autoImplicit false

/-! # Projects

A workspace together with the board that it is built for. The board and the catalog of definitions
decide what stands for a missing field or an empty socket. -/

namespace BlockCompiler

/-- A workspace and its board. -/
structure Project where
  workspace : Workspace
  board : Board := .standard

namespace Project

/-- The definition of a block's type, if the type is known. -/
def definition? (p : Project) (b : Block) : Option Definition :=
  Definition.ofType? b.type p.board

/-- The text of a block's field, or else the definition's default, or else nothing. -/
def field (p : Project) (b : Block) (name : String) : String :=
  match b.field? name with
  | some text => text
  | none => ((p.definition? b).bind (·.fieldDefault? name)).getD ""

/-- The C text for an empty value socket. -/
def socketDefault (p : Project) (b : Block) (socket : String) : String :=
  ((p.definition? b).bind (·.valueDefault? socket)).getD "0"

/-- Whether a type has an enabled block. -/
def has (p : Project) (kind : Kind) : Bool := p.workspace.containsType kind.name

/-- The enabled blocks of a kind that the program reaches, in program order. -/
def inOrder (p : Project) (kind : Kind) : List BlockId :=
  p.workspace.ofTypeInProgramOrder kind.name

/-- The same blocks themselves. -/
def blocksInOrder (p : Project) (kind : Kind) : List Block :=
  (p.inOrder kind).filterMap p.workspace.block?

end Project

end BlockCompiler
