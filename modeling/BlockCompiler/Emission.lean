import BlockCompiler.Emit.Catalog

set_option autoImplicit false

/-! # Emission

Carrying recipes out on the blocks of a project, as a build does that does not check its arithmetic.
A block whose code is being made stays on a stack until the code is complete; a block that is asked
for again meanwhile is connected to itself and yields a warning. So code is never nested deeper than
there are blocks. -/

namespace BlockCompiler

/-- What has been made so far. -/
structure Emission where
  context : Context := {}
  /-- The blocks whose code is being made, innermost first. -/
  active : List BlockId := []
  /-- How many fresh names were given out. -/
  names : Nat := 0
  /-- The blocks whose recipe was started, latest first. -/
  started : List BlockId := []
  /-- The blocks whose recipe is complete with the code that it yielded, latest first. -/
  made : List (BlockId × Fragment) := []

namespace Emission

/-- The emission before anything is made. -/
def empty : Emission := {}

/-- Marks a block as the innermost one being made. -/
def enter (s : Emission) (id : BlockId) : Emission :=
  { s with active := id :: s.active, started := id :: s.started }

/-- Marks the innermost block as complete with its code. -/
def leave (s : Emission) (id : BlockId) (fragment : Fragment) : Emission :=
  { s with active := s.active.tail, made := (id, fragment) :: s.made }

/-- Carries out an action on the context. -/
def perform (s : Emission) (action : Action) : action.Answer × Emission :=
  let (answer, context) := action.perform s.context
  (answer, { s with context })

end Emission

/-- Carries a recipe out; `code` makes the code of a block. -/
def Recipe.run {α : Type} (code : BlockId → Emission → Fragment × Emission) :
    Recipe α → Emission → α × Emission
  | .done value, s => (value, s)
  | .act action next, s =>
    let (answer, s) := s.perform action
    (next answer).run code s
  | .emit id next, s =>
    let (fragment, s) := code id s
    (next fragment).run code s
  | .fresh next, s => (next s.names).run code { s with names := s.names + 1 }
  | .overflow next, s => next.run code s

namespace Project

/-- The warning in place of a block that is connected to itself. -/
def selfConnected (b : Block) : Recipe Fragment := do
  let line ← Recipe.warning b "Block is connected to itself; skipped."
  return .statement line

/-- Makes the code of a block, nested at most `depth` deep. -/
def emitWithin (p : Project) : Nat → BlockId → Emission → Fragment × Emission
  | 0, id, s =>
    match p.workspace.block? id with
    | none => (.statement "", s)
    | some b => (selfConnected b).run (fun _ s => (.statement "", s)) s
  | depth + 1, id, s =>
    match p.workspace.block? id with
    | none => (.statement "", s)
    | some b =>
      if s.active.contains id then
        (selfConnected b).run (p.emitWithin depth) s
      else
        let (fragment, s) := (Emit.recipe p id b).run (p.emitWithin depth) (s.enter id)
        (fragment, s.leave id fragment)

/-- Makes the code of a block. One level more than there are blocks is never left, since every
level but the last holds a block of its own. -/
def emit (p : Project) (id : BlockId) (s : Emission) : Fragment × Emission :=
  p.emitWithin (p.workspace.size + 1) id s

/-- Carries a recipe out on the project's blocks. -/
def run {α : Type} (p : Project) (r : Recipe α) (s : Emission) : α × Emission :=
  r.run p.emit s

end Project

end BlockCompiler
