import BlockCompiler.Recipe
import Mathlib.Data.List.Forall2

set_option autoImplicit false

/-! # Recipes under other numbers

A recipe names blocks by their numbers and in no other way. `Recipe.renumber` exchanges the numbers
that a recipe asks for; everything else that it does stays.

`Recipe.Mirrors` is weaker: besides the numbers it lets the diagnostics differ that a recipe records,
as far as some relation allows. With equality for that relation it says that a recipe is the other
one under other numbers. -/

namespace BlockCompiler.Recipe

variable {α β : Type} (σ : BlockId → BlockId)

/-- The recipe that asks for block `σ id` where the other asks for block `id`. -/
def renumber : Recipe α → Recipe α
  | .done value => .done value
  | .act action next => .act action fun answer => (next answer).renumber
  | .emit id next => .emit (σ id) fun fragment => (next fragment).renumber
  | .fresh next => .fresh fun n => (next n).renumber
  | .overflow next => .overflow next.renumber

@[simp] theorem renumber_pure (a : α) : renumber σ (pure a) = pure a := rfl

@[simp] theorem renumber_bind (r : Recipe α) (f : α → Recipe β) :
    renumber σ (r >>= f) = renumber σ r >>= fun a => renumber σ (f a) := by
  show renumber σ (r.bind f) = (renumber σ r).bind _
  induction r with
  | done value => rfl
  | act action next ih => exact congrArg (Recipe.act action) (funext ih)
  | emit id next ih => exact congrArg (Recipe.emit (σ id)) (funext ih)
  | fresh next ih => exact congrArg Recipe.fresh (funext ih)
  | overflow next ih => exact congrArg Recipe.overflow ih

@[simp] theorem renumber_code (id : BlockId) : renumber σ (code id) = code (σ id) := rfl

/-! ## Recipes that ask for no block -/

@[simp] theorem renumber_setType (name : String) (type : CType) :
    renumber σ (α := Unit) (perform (.setType name type)) = perform (.setType name type) := rfl

@[simp] theorem renumber_replaceSetup (key text : String) :
    renumber σ (α := Unit) (perform (.replaceSetup key text)) = perform (.replaceSetup key text) :=
  rfl

@[simp] theorem renumber_register (part : Section) (key text : String) :
    renumber σ (register part key text) = register part key text := rfl

@[simp] theorem renumber_ensure (part : Section) (key text : String) :
    renumber σ (ensure part key text) = ensure part key text := rfl

@[simp] theorem renumber_freshName (stem : String) :
    renumber σ (freshName stem) = freshName stem := rfl

@[simp] theorem renumber_overflowUnless (fits : Bool) :
    renumber σ (overflowUnless fits) = overflowUnless fits := by
  cases fits <;> rfl

@[simp] theorem renumber_warning (b : Block) (message : String) :
    renumber σ (warning b message) = warning b message := rfl

@[simp] theorem renumber_error (b : Block) (message : String) :
    renumber σ (error b message) = error b message := rfl

/-! ## Lists of recipes -/

@[simp] theorem renumber_concat (rs : List (Recipe String)) :
    renumber σ (concat rs) = concat (rs.map (renumber σ)) := by
  induction rs with
  | nil => rfl
  | cons r rs ih => simp only [concat, List.map_cons, renumber_bind, renumber_pure, ih]

/-! ## Recipes with other diagnostics -/

/-- The recipe under other numbers, where for some diagnostic `d` another one that `d` tells may be
recorded. -/
inductive Mirrors (tells : Diagnostic → Diagnostic → Prop) : Recipe α → Recipe α → Prop
  | done (a : α) : Mirrors tells (.done a) (.done a)
  | act {action : Action} {next next' : action.Answer → Recipe α} :
    (∀ answer, Mirrors tells (next answer) (next' answer)) →
    Mirrors tells (.act action next) (.act action next')
  | diagnose {d d' : Diagnostic} {next next' : Unit → Recipe α} :
    tells d d' → Mirrors tells (next ()) (next' ()) →
    Mirrors tells (.act (.diagnose d) next) (.act (.diagnose d') next')
  | emit {id : BlockId} {next next' : Fragment → Recipe α} :
    (∀ fragment, Mirrors tells (next fragment) (next' fragment)) →
    Mirrors tells (.emit id next) (.emit (σ id) next')
  | fresh {next next' : Nat → Recipe α} :
    (∀ n, Mirrors tells (next n) (next' n)) → Mirrors tells (.fresh next) (.fresh next')
  | overflow {next next' : Recipe α} :
    Mirrors tells next next' → Mirrors tells (.overflow next) (.overflow next')

variable {σ} {tells : Diagnostic → Diagnostic → Prop}

theorem mirrors_renumber (r : Recipe α) : Mirrors σ tells r (r.renumber σ) := by
  induction r with
  | done a => exact .done a
  | act action next ih => exact .act ih
  | emit id next ih => exact .emit ih
  | fresh next ih => exact .fresh ih
  | overflow next ih => exact .overflow ih

theorem Mirrors.of_eq {r r' : Recipe α} (h : r' = r.renumber σ) : Mirrors σ tells r r' :=
  h ▸ mirrors_renumber r

/-- Without other diagnostics only the numbers are exchanged. -/
theorem Mirrors.eq_renumber {r r' : Recipe α} (h : Mirrors σ Eq r r') : r' = r.renumber σ := by
  induction h with
  | done a => rfl
  | act _ ih => exact congrArg (Recipe.act _) (funext ih)
  | diagnose htells _ ih =>
    subst htells
    exact congrArg (Recipe.act _) (funext fun _ => ih)
  | emit _ ih => exact congrArg (Recipe.emit _) (funext ih)
  | fresh _ ih => exact congrArg Recipe.fresh (funext ih)
  | overflow _ ih => exact congrArg Recipe.overflow ih

theorem Mirrors.bind {r r' : Recipe α} {f f' : α → Recipe β} (hr : Mirrors σ tells r r')
    (hf : ∀ a, Mirrors σ tells (f a) (f' a)) : Mirrors σ tells (r >>= f) (r' >>= f') := by
  show Mirrors σ tells (r.bind f) (r'.bind f')
  induction hr with
  | done a => exact hf a
  | act _ ih => exact .act ih
  | diagnose htells _ ih => exact .diagnose htells ih
  | emit _ ih => exact .emit ih
  | fresh _ ih => exact .fresh ih
  | overflow _ ih => exact .overflow ih

theorem Mirrors.pure (a : α) : Mirrors σ tells (Pure.pure a) (Pure.pure a) := .done a

/-- A warning may name its block otherwise, but not have another message. -/
theorem Mirrors.warning {b b' : Block} {message : String}
    (h : tells ⟨.warning, b.id, b.type, message⟩ ⟨.warning, b'.id, b'.type, message⟩) :
    Mirrors σ tells (Recipe.warning b message) (Recipe.warning b' message) :=
  .diagnose h (.pure _)

theorem Mirrors.concat {rs rs' : List (Recipe String)}
    (h : List.Forall₂ (Mirrors σ tells) rs rs') :
    Mirrors σ tells (Recipe.concat rs) (Recipe.concat rs') := by
  induction h with
  | nil => exact .pure ""
  | cons hr _ ih => exact hr.bind fun _ => ih.bind fun _ => .pure _

end BlockCompiler.Recipe
