import BlockCompiler.Block
import BlockCompiler.Context
import BlockCompiler.Fragment

set_option autoImplicit false

/-! # Recipes

A recipe is what a block asks for while its code is made: changes of the context, the code of other
blocks, and numbers for fresh names. It also tells where arithmetic on words of 64 bits overflows. It is
data, so that a law of every recipe is one induction; `Emission` carries recipes out. -/

namespace BlockCompiler

/-- A computation that asks for actions, for code of blocks and for fresh numbers. -/
inductive Recipe (α : Type) : Type where
  | done (value : α)
  | act (action : Action) (next : action.Answer → Recipe α)
  /-- Asks for the code of a block. -/
  | emit (id : BlockId) (next : Fragment → Recipe α)
  /-- Asks for a number that no other place got. -/
  | fresh (next : Nat → Recipe α)
  /-- Goes on with what is left of a result that does not fit into its word. A build that checks
  arithmetic stops here for good. -/
  | overflow (next : Recipe α)

namespace Recipe

variable {α β γ : Type}

/-- Goes on with the outcome of a recipe. -/
protected def bind : Recipe α → (α → Recipe β) → Recipe β
  | .done value, f => f value
  | .act action next, f => .act action fun answer => (next answer).bind f
  | .emit id next, f => .emit id fun fragment => (next fragment).bind f
  | .fresh next, f => .fresh fun n => (next n).bind f
  | .overflow next, f => .overflow (next.bind f)

instance : Monad Recipe where
  pure := .done
  bind := Recipe.bind

theorem bind_done (r : Recipe α) : r.bind .done = r := by
  induction r with
  | done value => rfl
  | act action next ih => exact congrArg (Recipe.act action) (funext ih)
  | emit id next ih => exact congrArg (Recipe.emit id) (funext ih)
  | fresh next ih => exact congrArg Recipe.fresh (funext ih)
  | overflow next ih => exact congrArg Recipe.overflow ih

theorem bind_assoc (r : Recipe α) (f : α → Recipe β) (g : β → Recipe γ) :
    (r.bind f).bind g = r.bind fun a => (f a).bind g := by
  induction r with
  | done value => rfl
  | act action next ih => exact congrArg (Recipe.act action) (funext ih)
  | emit id next ih => exact congrArg (Recipe.emit id) (funext ih)
  | fresh next ih => exact congrArg Recipe.fresh (funext ih)
  | overflow next ih => exact congrArg Recipe.overflow ih

instance : LawfulMonad Recipe :=
  LawfulMonad.mk' Recipe (fun r => bind_done r) (fun _ _ => rfl) bind_assoc

/-! ## Asking -/

/-- Carries out an action. -/
def perform (action : Action) : Recipe action.Answer := .act action .done

/-- Registers a text; the answer tells whether its key was new. -/
def register (part : Section) (key text : String) : Recipe Bool :=
  perform (.register part key text)

/-- Registers a text, new or not. -/
def ensure (part : Section) (key text : String) : Recipe Unit := do
  let _ ← register part key text

/-- The code of a block. -/
def code (id : BlockId) : Recipe Fragment := .emit id .done

/-- A fresh name with the given stem. -/
def freshName (stem : String) : Recipe String :=
  .fresh fun n => .done ("_" ++ stem ++ toString n)

/-- Marks arithmetic whose result does not fit into its word. -/
def overflowUnless (fits : Bool) : Recipe Unit :=
  if fits then .done () else .overflow (.done ())

/-- Records a diagnostic about a block; the outcome is its comment line. -/
def diagnose (severity : Severity) (b : Block) (message : String) : Recipe String := do
  let diagnostic : Diagnostic := { severity, blockId := b.id, blockType := b.type, message }
  perform (.diagnose diagnostic)
  return diagnostic.comment

/-- Records a warning about a block. -/
def warning (b : Block) (message : String) : Recipe String := diagnose .warning b message

/-- Records an error about a block. -/
def error (b : Block) (message : String) : Recipe String := diagnose .error b message

/-- The texts of recipes, one after the other. -/
def concat : List (Recipe String) → Recipe String
  | [] => return ""
  | r :: rs => do
    let first ← r
    let others ← concat rs
    return first ++ others

end Recipe

end BlockCompiler
