import BlockCompiler.Proofs.Diagnostic
import BlockCompiler.Proofs.Recipe.Path
import BlockCompiler.Proofs.Text.Quoted

set_option autoImplicit false

/-! # Diagnostics conveyed

A recipe records a diagnostic in the context, while the text that shows the diagnostic goes on in the
outcome. This module has the rules for following the text: what a recipe is told of a diagnostic, by
its own events or by what was asked for before, has to be shown by the outcome. -/

namespace BlockCompiler

open Text Comment

/-- A value shows a diagnostic: a block comment holds what the diagnostic says, and the value is no
literal, whose characters only happen to be these. -/
structure Diagnostic.IsCited (d : Diagnostic) (text : String) : Prop where
  holds : Holds d.note text
  isOpen : IsOpen text

namespace Fragment

/-- The code of a block shows a diagnostic. -/
def Shows (d : Diagnostic) : Fragment → Prop
  | .statement text => d.IsShown text
  | .expression found => d.IsCited found.text

/-- Statements are closed, and a value is a literal or starts as none does. -/
structure IsSound (g : Fragment) : Prop where
  closed : g.IsClosed
  settled : ∀ found, g = .expression found → IsSettled found.text

end Fragment

/-- An event tells of a diagnostic: it records the diagnostic, or it gets code that shows the diagnostic
and is used. -/
def Event.Tells (d : Diagnostic) (uses : BlockId → Fragment → Prop) : Event → Prop
  | .did action _ => action = .diagnose d
  | .made id g => g.Shows d ∧ uses id g
  | .drew _ => False

namespace Recipe

variable {α β : Type} {d : Diagnostic} {uses : BlockId → Fragment → Prop} {told told' : Prop}
  {sound shown : α → Prop} {sound' shown' : β → Prop}

/-- Made of sound code, the outcome is sound; and if the diagnostic was told of, before or on the path,
the outcome shows it. -/
def Conveys (d : Diagnostic) (uses : BlockId → Fragment → Prop) (told : Prop)
    (sound shown : α → Prop) (r : Recipe α) : Prop :=
  ∀ es a, Path r es a → (∀ id g, .made id g ∈ es → g.IsSound) →
    sound a ∧ ((told ∨ ∃ e ∈ es, e.Tells d uses) → shown a)

theorem Conveys.pure {a : α} (hsound : sound a) (hshown : told → shown a) :
    (Pure.pure a : Recipe α).Conveys d uses told sound shown := by
  intro es b hpath _
  obtain ⟨rfl, rfl⟩ := hpath.of_pure
  exact ⟨hsound, fun htold => hshown (htold.resolve_right nofun)⟩

/-- What the first recipe shows is told to the second one. -/
theorem Conveys.bind {r : Recipe α} {f : α → Recipe β} (hr : r.Conveys d uses told sound shown)
    (hf : ∀ a, sound a → (f a).Conveys d uses (shown a) sound' shown') :
    (r >>= f).Conveys d uses told sound' shown' := by
  intro es b hpath hmade
  obtain ⟨es₁, a, es₂, rfl, h₁, h₂⟩ := hpath.of_bind
  obtain ⟨ha, hshown⟩ := hr es₁ a h₁ fun id g hg => hmade id g (List.mem_append_left _ hg)
  obtain ⟨hb, hshown'⟩ := hf a ha es₂ b h₂ fun id g hg => hmade id g (List.mem_append_right _ hg)
  refine ⟨hb, ?_⟩
  rintro (htold | ⟨e, he, htells⟩)
  · exact hshown' (.inl (hshown (.inl htold)))
  · rcases List.mem_append.1 he with he | he
    · exact hshown' (.inl (hshown (.inr ⟨e, he, htells⟩)))
    · exact hshown' (.inr ⟨e, he, htells⟩)

theorem Conveys.of_imp {r : Recipe α} (h : r.Conveys d uses told sound shown)
    (htold : told' → told) : r.Conveys d uses told' sound shown := by
  intro es a hpath hmade
  obtain ⟨ha, hshown⟩ := h es a hpath hmade
  exact ⟨ha, fun h => hshown (h.imp_left htold)⟩

theorem Conveys.mono {r : Recipe α} {sound' shown' : α → Prop}
    (h : r.Conveys d uses told sound shown) (hsound : ∀ a, sound a → sound' a)
    (hshown : ∀ a, shown a → shown' a) : r.Conveys d uses told sound' shown' := by
  intro es a hpath hmade
  obtain ⟨ha, htold⟩ := h es a hpath hmade
  exact ⟨hsound a ha, fun h => hshown a (htold h)⟩

/-- An action that records nothing tells of nothing. -/
theorem Conveys.perform {action : Action} (h : ∀ d, action ≠ .diagnose d) :
    (Recipe.perform action).Conveys d uses told (fun _ => True) fun _ => told := by
  intro es answer hpath _
  rw [hpath.of_perform]
  refine ⟨trivial, ?_⟩
  rintro (htold | ⟨e, he, htells⟩)
  · exact htold
  · obtain rfl := List.mem_singleton.1 he
    exact absurd htells (h d)

theorem Conveys.ensure {part : Section} {key text : String} :
    (Recipe.ensure part key text).Conveys d uses told (fun _ => True) fun _ => told := by
  have hregister : ∀ d, Action.register part key text ≠ .diagnose d := nofun
  exact (Conveys.perform hregister).bind fun _ _ => .pure trivial id

theorem Conveys.freshName {stem : String} :
    (Recipe.freshName stem).Conveys d uses told (fun _ => True) fun _ => told := by
  intro es name hpath _
  cases hpath with
  | fresh n hpath =>
    cases hpath
    refine ⟨trivial, ?_⟩
    rintro (htold | ⟨e, he, htells⟩)
    · exact htold
    · obtain rfl := List.mem_singleton.1 he
      exact htells.elim

theorem Conveys.overflowUnless {fits : Bool} :
    (Recipe.overflowUnless fits).Conveys d uses told (fun _ => True) fun _ => told := by
  intro es a hpath _
  rw [hpath.of_overflowUnless]
  exact ⟨trivial, fun htold => htold.resolve_right nofun⟩

/-- What is recorded is shown by the comment line. -/
theorem Conveys.diagnose {severity : Severity} {b : Block} {message : String} :
    (Recipe.diagnose severity b message).Conveys d uses told IsClosed fun line =>
      told ∨ d.IsShown line := by
  intro es line hpath _
  obtain ⟨d', -, rfl, rfl⟩ := hpath.of_diagnose
  refine ⟨isClosed_newline _, ?_⟩
  rintro (htold | ⟨e, he, htells⟩)
  · exact .inl htold
  · obtain rfl := List.mem_singleton.1 he
    obtain rfl := Action.diagnose.inj htells
    exact .inr d'.isShown_comment

/-- Code that is used shows what it tells. -/
theorem Conveys.code {id : BlockId} :
    (Recipe.code id).Conveys d uses told Fragment.IsSound fun g =>
      told ∨ (g.Shows d ∧ uses id g) := by
  intro es g hpath hmade
  obtain rfl := hpath.of_code
  refine ⟨hmade id g List.mem_cons_self, Or.imp_right ?_⟩
  rintro ⟨e, he, htells⟩
  obtain rfl := List.mem_singleton.1 he
  exact htells

/-- Texts that are closed show together what one of them shows. -/
theorem Conveys.concat {rs : List (Recipe String)}
    (h : ∀ r ∈ rs, ∀ told, r.Conveys d uses told IsClosed fun text => told ∨ d.IsShown text) :
    (Recipe.concat rs).Conveys d uses told IsClosed fun text => told ∨ d.IsShown text := by
  induction rs generalizing told with
  | nil => exact .pure isClosed_empty .inl
  | cons r rs ih =>
    refine (h r List.mem_cons_self told).bind fun first hfirst => ?_
    have hothers : (Recipe.concat rs).Conveys d uses (told ∨ d.IsShown first) IsClosed fun text =>
        (told ∨ d.IsShown first) ∨ d.IsShown text :=
      ih fun r' hr' => h r' (List.mem_cons_of_mem r hr')
    refine hothers.bind fun others hothers => .pure (hfirst.append hothers) ?_
    rintro ((htold | hshown) | hshown)
    · exact .inl htold
    · exact .inr (hshown.append_right others)
    · exact .inr (hshown.append_left hfirst)

end Recipe

end BlockCompiler
