import BlockCompiler.Block

set_option autoImplicit false

/-! # Workspaces

A workspace numbers its blocks in the order in which they were added and keeps which of them head a
stack on the canvas, the variables that were declared, and an index by type. -/

namespace BlockCompiler

/-- Blocks, the stacks they form, and the declared variables. -/
structure Workspace where
  /-- The block of each number. -/
  blocks : Array Block := #[]
  /-- Heads of the stacks on the canvas, in the order in which they were added. -/
  top : List BlockId := []
  /-- Every block once, in the order in which the blocks took their present types. -/
  index : List BlockId := []
  /-- Names of variables, each once, in the order of declaration. -/
  variableNames : List String := []
  deriving Repr, DecidableEq

/-- What can go wrong when a workspace is changed. -/
inductive Workspace.Error where
  /-- A block was to be replaced that does not exist. -/
  | missingBlock (id : BlockId)
  deriving Repr, DecidableEq

/-- The wording of an error. -/
def Workspace.Error.message : Workspace.Error → String
  | .missingBlock id => "Cannot replace missing block #" ++ toString id ++ "."

namespace Workspace

/-- The workspace without blocks. -/
def empty : Workspace := {}

/-- How many blocks there are. -/
def size (w : Workspace) : Nat := w.blocks.size

/-- The block of a number. -/
def block? (w : Workspace) (id : BlockId) : Option Block := w.blocks[id]?

/-! ## Building -/

/-- The number that the next block gets. -/
def nextId (w : Workspace) : BlockId := w.blocks.size

/-- Adds a block that heads no stack on the canvas. -/
def add (w : Workspace) (b : Block) : Workspace :=
  { w with blocks := w.blocks.push b, index := w.index ++ [w.nextId] }

/-- Adds a block that heads a stack on the canvas. -/
def addTop (w : Workspace) (b : Block) : Workspace :=
  { w.add b with top := w.top ++ [w.nextId] }

/-- Changes the block of a number without changing its type. -/
def modify (w : Workspace) (id : BlockId) (change : Block → Block) : Workspace :=
  { w with blocks := w.blocks.modify id change }

/-- Plugs a block into a value socket, in place of what was there. -/
def connectValue (w : Workspace) (parent : BlockId) (socket : String) (child : BlockId) :
    Workspace :=
  w.modify parent fun b => { b with values := b.values.put socket child }

/-- Hangs a stack into a statement socket, in place of what was there. -/
def connectStatement (w : Workspace) (parent : BlockId) (socket : String) (child : BlockId) :
    Workspace :=
  w.modify parent fun b => { b with statements := b.statements.put socket child }

/-- Puts a block below another. -/
def connectNext (w : Workspace) (above below : BlockId) : Workspace :=
  w.modify above fun b => { b with next := some below }

/-- Stacks blocks in the order of a list. -/
def chain (w : Workspace) (ids : List BlockId) : Workspace :=
  (ids.zip ids.tail).foldl (fun w (above, below) => w.connectNext above below) w

/-- Declares a variable, once. -/
def declare (w : Workspace) (name : String) : Workspace :=
  if w.variableNames.contains name then w
  else { w with variableNames := w.variableNames ++ [name] }

/-- Exchanges the block of a number. Links to it stay; in the index it comes last. -/
def exchange (w : Workspace) (id : BlockId) (b : Block) : Workspace :=
  { w with blocks := w.blocks.setIfInBounds id b, index := w.index.filter (· != id) ++ [id] }

/-- Exchanges the block of a number if there is one. -/
def replace (w : Workspace) (id : BlockId) (b : Block) : Except Error Workspace :=
  if id < w.size then .ok (w.exchange id b) else .error (.missingBlock id)

/-! ## Asking -/

/-- Whether the block of a number exists, takes part in the program and passes a test. -/
def isEnabled (w : Workspace) (id : BlockId) (test : Block → Bool) : Bool :=
  match w.block? id with
  | some b => !b.disabled && test b
  | none => false

/-- The enabled blocks of a type, in the order of the index. -/
def ofType (w : Workspace) (type : String) : List BlockId :=
  w.index.filter fun id => w.isEnabled id (·.type == type)

/-- Whether a type has an enabled block. -/
def containsType (w : Workspace) (type : String) : Bool := !(w.ofType type).isEmpty

/-- Whether a type has an enabled block that passes a test. -/
def containsMatching (w : Workspace) (type : String) (test : Block → Bool) : Bool :=
  (w.ofType type).any fun id => w.isEnabled id test

/-- The enabled blocks that pass a test, in the order of their numbers. -/
def findAll (w : Workspace) (test : Block → Bool) : List BlockId :=
  (List.range w.size).filter fun id => w.isEnabled id test

end Workspace

end BlockCompiler
