import BlockCompiler.Proofs.Recipe.Path

set_option autoImplicit false

/-! # Numbers drawn

Which numbers for fresh names a recipe draws on its paths, and what becomes of them in the outcome. The
numbers are answers, so nothing is known about them here. Most recipes draw none, and the rules for these
have a predicate of their own. -/

namespace BlockCompiler

namespace Event

/-- The number that was drawn. -/
def drawn? : Event → Option Nat
  | .drew n => some n
  | _ => none

/-- The numbers that were drawn, in turn. -/
def drawn (es : List Event) : List Nat := es.filterMap drawn?

theorem drawn_append (es es' : List Event) : drawn (es ++ es') = drawn es ++ drawn es' :=
  List.filterMap_append

end Event

namespace Recipe

variable {α β : Type} {fits : List Nat → α → Prop} {fits' : List Nat → β → Prop}

/-! ## Outcomes with their numbers -/

/-- On every path, the numbers drawn and the outcome fit together. -/
def Draws (fits : List Nat → α → Prop) (r : Recipe α) : Prop :=
  ∀ es a, Path r es a → fits (Event.drawn es) a

theorem Draws.pure {a : α} (h : fits [] a) : (Pure.pure a : Recipe α).Draws fits := by
  intro es b hpath
  obtain ⟨rfl, rfl⟩ := hpath.of_pure
  exact h

theorem Draws.bind {r : Recipe α} {f : α → Recipe β} (hr : r.Draws fits)
    (hf : ∀ a, (f a).Draws fun ms b => ∀ ns, fits ns a → fits' (ns ++ ms) b) :
    (r >>= f).Draws fits' := by
  intro es b hpath
  obtain ⟨es₁, a, es₂, rfl, h₁, h₂⟩ := hpath.of_bind
  rw [Event.drawn_append]
  exact hf a es₂ b h₂ _ (hr es₁ a h₁)

theorem Draws.mono {weaker : List Nat → α → Prop} {r : Recipe α} (h : r.Draws fits)
    (hweaker : ∀ ns a, fits ns a → weaker ns a) : r.Draws weaker := fun es a hpath =>
  hweaker _ a (h es a hpath)

theorem Draws.freshName (stem : String) :
    (Recipe.freshName stem).Draws fun ns name =>
      ∃ n : Nat, ns = [n] ∧ name = "_" ++ stem ++ toString n := by
  intro es name hpath
  cases hpath with
  | fresh n hpath =>
    cases hpath
    exact ⟨n, rfl, rfl⟩

/-! ## Recipes without fresh names -/

/-- No path draws a number. -/
def DrawsNone (r : Recipe α) : Prop := r.Draws fun ns _ => ns = []

theorem DrawsNone.pure (a : α) : (Pure.pure a : Recipe α).DrawsNone := Draws.pure rfl

/-- What comes behind a recipe that draws none gets the numbers to itself. -/
theorem DrawsNone.followed {r : Recipe α} {f : α → Recipe β} (hr : r.DrawsNone)
    (hf : ∀ a, (f a).Draws fits') : (r >>= f).Draws fits' := by
  refine Draws.bind hr fun a => (hf a).mono ?_
  rintro ms b hfits _ rfl
  exact hfits

theorem DrawsNone.bind {r : Recipe α} {f : α → Recipe β} (hr : r.DrawsNone)
    (hf : ∀ a, (f a).DrawsNone) : (r >>= f).DrawsNone := hr.followed hf

theorem DrawsNone.perform (action : Action) : (Recipe.perform action).DrawsNone := by
  intro es answer hpath
  rw [hpath.of_perform]
  rfl

theorem DrawsNone.ensure (part : Section) (key text : String) :
    (Recipe.ensure part key text).DrawsNone :=
  (DrawsNone.perform _).bind fun _ => .pure ()

theorem DrawsNone.code (id : BlockId) : (Recipe.code id).DrawsNone := by
  intro es fragment hpath
  rw [hpath.of_code]
  rfl

theorem DrawsNone.diagnose (severity : Severity) (b : Block) (message : String) :
    (Recipe.diagnose severity b message).DrawsNone :=
  (DrawsNone.perform _).bind fun _ => .pure _

theorem DrawsNone.overflowUnless (fits : Bool) : (Recipe.overflowUnless fits).DrawsNone := by
  intro es a hpath
  rw [hpath.of_overflowUnless]
  rfl

/-- A check in front of a code, with the line that stands in its place. -/
theorem DrawsNone.unless {check : Recipe (Option String)} {code : Recipe String}
    (hcheck : check.DrawsNone) (hcode : code.DrawsNone) :
    (do
      match ← check with
      | some line => return line
      | none => code : Recipe String).DrawsNone := by
  refine hcheck.bind fun remark => ?_
  cases remark with
  | some line => exact .pure line
  | none => exact hcode

theorem DrawsNone.concat {rs : List (Recipe String)} (h : ∀ r ∈ rs, r.DrawsNone) :
    (Recipe.concat rs).DrawsNone := by
  induction rs with
  | nil => exact .pure ""
  | cons r rs ih =>
    refine (h r List.mem_cons_self).bind fun first => ?_
    exact (ih fun r' hr' => h r' (List.mem_cons_of_mem r hr')).bind fun others => .pure _

end Recipe

end BlockCompiler
