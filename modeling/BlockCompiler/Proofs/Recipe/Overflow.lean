import BlockCompiler.Proofs.Emission.Nesting

set_option autoImplicit false

/-! # Overflows of recipes

Most recipes do no arithmetic that could leave its words, whatever they are answered. Of the others it
depends on the state in which they are carried out: one that overflows somewhere goes on all the same
here, but comes to its end in a build that checks arithmetic only if it does not. -/

namespace BlockCompiler.Recipe

variable {α β : Type}

/-! ## Recipes that never overflow -/

/-- No arithmetic of the recipe overflows, whatever the answers are. -/
def IsExact : Recipe α → Prop
  | .done _ => True
  | .act _ next => ∀ answer, (next answer).IsExact
  | .emit _ next => ∀ fragment, (next fragment).IsExact
  | .fresh next => ∀ n, (next n).IsExact
  | .overflow _ => False

theorem IsExact.pure (a : α) : (Pure.pure a : Recipe α).IsExact := trivial

theorem IsExact.bind {r : Recipe α} {f : α → Recipe β} (hr : r.IsExact) (hf : ∀ a, (f a).IsExact) :
    (r >>= f).IsExact := by
  show (r.bind f).IsExact
  induction r with
  | done a => exact hf a
  | act action next ih => exact fun answer => ih answer (hr answer)
  | emit id next ih => exact fun fragment => ih fragment (hr fragment)
  | fresh next ih => exact fun n => ih n (hr n)
  | overflow next => exact hr.elim

theorem IsExact.perform (action : Action) : (Recipe.perform action).IsExact := fun _ => trivial

theorem IsExact.code (id : BlockId) : (Recipe.code id).IsExact := fun _ => trivial

theorem IsExact.freshName (stem : String) : (Recipe.freshName stem).IsExact := fun _ => trivial

theorem IsExact.concat {rs : List (Recipe String)} (h : ∀ r ∈ rs, r.IsExact) :
    (Recipe.concat rs).IsExact := by
  induction rs with
  | nil => exact .pure ""
  | cons r rs ih =>
    refine (h r List.mem_cons_self).bind fun first => ?_
    exact (ih fun r' hr' => h r' (List.mem_cons_of_mem r hr')).bind fun others => .pure _

/-! ## Overflows in a state -/

variable (code : BlockId → Emission → Fragment × Emission)

/-- Carrying the recipe out comes to arithmetic of its own that overflows. -/
def Overflows : Recipe α → Emission → Prop
  | .done _, _ => False
  | .act action next, s => (next (s.perform action).1).Overflows (s.perform action).2
  | .emit id next, s => (next (code id s).1).Overflows (code id s).2
  | .fresh next, s => (next s.names).Overflows { s with names := s.names + 1 }
  | .overflow _, _ => True

variable {code}

theorem overflows_bind {r : Recipe α} {f : α → Recipe β} {s : Emission} :
    (r >>= f).Overflows code s ↔
      r.Overflows code s ∨ (f (r.run code s).1).Overflows code (r.run code s).2 := by
  show (r.bind f).Overflows code s ↔ _
  induction r generalizing s with
  | done a => exact (Iff.of_eq (false_or _)).symm
  | act action next ih => exact ih _
  | emit id next ih => exact ih _
  | fresh next ih => exact ih _
  | overflow next => exact iff_of_true trivial (.inl trivial)

theorem IsExact.not_overflows {r : Recipe α} (h : r.IsExact) (s : Emission) : ¬r.Overflows code s := by
  induction r generalizing s with
  | done a => exact not_false
  | act action next ih => exact ih _ (h _) _
  | emit id next ih => exact ih _ (h _) _
  | fresh next ih => exact ih _ (h _) _
  | overflow next => exact h.elim

/-- What comes behind a recipe that never overflows may. -/
theorem IsExact.overflows_bind {r : Recipe α} (h : r.IsExact) {f : α → Recipe β} {s : Emission} :
    (r >>= f).Overflows code s ↔ (f (r.run code s).1).Overflows code (r.run code s).2 :=
  Recipe.overflows_bind.trans (or_iff_right (h.not_overflows s))

theorem overflows_overflowUnless {fits : Bool} {s : Emission} :
    (overflowUnless fits).Overflows code s ↔ fits = false := by
  cases fits with
  | false => exact iff_of_true trivial rfl
  | true => exact iff_of_false not_false nofun

end BlockCompiler.Recipe
