import BlockCompiler.Proofs.Text.Lines
import BlockCompiler.Recipe
import Mathlib.Data.List.Forall2

set_option autoImplicit false

/-! # Paths of recipes

A recipe is a tree: what it asks for next depends on the answers it got. A path is one way down the
tree, with the answers along it and the outcome at its end. What holds of all paths holds wherever
the recipe is carried out, since carrying it out takes one of them.

`Recipe.Meets` bundles the three facts that every recipe of a block satisfies: which blocks it asks
for and in which order, which actions it takes, and what its outcome looks like. Its rules follow
the ways in which recipes are put together, so that the facts about a block's recipe are read off its
parts. -/

namespace BlockCompiler

/-! ## Events -/

/-- Something that a recipe asked for, with the answer. -/
inductive Event where
  | did (action : Action) (answer : action.Answer)
  | made (id : BlockId) (fragment : Fragment)
  | drew (n : Nat)

namespace Event

/-- The action that was taken. -/
def action? : Event → Option Action
  | .did action _ => some action
  | _ => none

/-- The block that was asked for. -/
def asked? : Event → Option BlockId
  | .made id _ => some id
  | _ => none

/-- The actions that were taken, in turn. -/
def actions (es : List Event) : List Action := es.filterMap action?

/-- The blocks that were asked for, in turn. -/
def asked (es : List Event) : List BlockId := es.filterMap asked?

theorem actions_append (es es' : List Event) : actions (es ++ es') = actions es ++ actions es' :=
  List.filterMap_append

theorem asked_append (es es' : List Event) : asked (es ++ es') = asked es ++ asked es' :=
  List.filterMap_append

end Event

/-! ## Closed fragments -/

/-- A fragment that is safe to put in front of other code. -/
def Fragment.IsClosed : Fragment → Prop
  | .statement text => Text.IsClosed text
  | .expression _ => True

/-- The fragments that were made are closed. -/
def Event.IsClosed : Event → Prop
  | .made _ fragment => fragment.IsClosed
  | _ => True

namespace Recipe

variable {α β : Type}

/-! ## Paths -/

/-- The events along one way down a recipe, and the outcome. -/
inductive Path : Recipe α → List Event → α → Prop
  | done (a : α) : Path (.done a) [] a
  | act {action : Action} {next : action.Answer → Recipe α} (answer : action.Answer)
      {es : List Event} {a : α} :
    Path (next answer) es a → Path (.act action next) (.did action answer :: es) a
  | emit {id : BlockId} {next : Fragment → Recipe α} (fragment : Fragment) {es : List Event}
      {a : α} :
    Path (next fragment) es a → Path (.emit id next) (.made id fragment :: es) a
  | fresh {next : Nat → Recipe α} (n : Nat) {es : List Event} {a : α} :
    Path (next n) es a → Path (.fresh next) (.drew n :: es) a
  | overflow {next : Recipe α} {es : List Event} {a : α} : Path next es a → Path (.overflow next) es a

/-- A path through two recipes in turn is a path through the first and one through the second. -/
theorem Path.of_bind {r : Recipe α} {f : α → Recipe β} {es : List Event} {b : β}
    (h : Path (r >>= f) es b) :
    ∃ es₁ a es₂, es = es₁ ++ es₂ ∧ Path r es₁ a ∧ Path (f a) es₂ b := by
  replace h : Path (r.bind f) es b := h
  induction r generalizing es with
  | done a => exact ⟨[], a, es, rfl, .done a, h⟩
  | act action next ih =>
    cases h with
    | act answer h =>
      obtain ⟨es₁, a, es₂, rfl, h₁, h₂⟩ := ih answer h
      exact ⟨_, a, es₂, rfl, .act answer h₁, h₂⟩
  | emit id next ih =>
    cases h with
    | emit fragment h =>
      obtain ⟨es₁, a, es₂, rfl, h₁, h₂⟩ := ih fragment h
      exact ⟨_, a, es₂, rfl, .emit fragment h₁, h₂⟩
  | fresh next ih =>
    cases h with
    | fresh n h =>
      obtain ⟨es₁, a, es₂, rfl, h₁, h₂⟩ := ih n h
      exact ⟨_, a, es₂, rfl, .fresh n h₁, h₂⟩
  | overflow next ih =>
    cases h with
    | overflow h =>
      obtain ⟨es₁, a, es₂, rfl, h₁, h₂⟩ := ih h
      exact ⟨es₁, a, es₂, rfl, .overflow h₁, h₂⟩

theorem Path.of_pure {a b : α} {es : List Event} (h : Path (pure a : Recipe α) es b) :
    es = [] ∧ b = a := by
  cases h
  exact ⟨rfl, rfl⟩

theorem Path.of_perform {action : Action} {es : List Event} {answer : action.Answer}
    (h : Path (perform action) es answer) : es = [.did action answer] := by
  cases h with
  | act answer h => cases h; rfl

theorem Path.of_code {id : BlockId} {es : List Event} {fragment : Fragment}
    (h : Path (code id) es fragment) : es = [.made id fragment] := by
  cases h with
  | emit fragment h => cases h; rfl

/-- Overflows are no events. -/
theorem Path.of_overflowUnless {fits : Bool} {es : List Event} {a : Unit}
    (h : Path (overflowUnless fits) es a) : es = [] := by
  unfold overflowUnless at h
  split at h
  · cases h; rfl
  · cases h with
    | overflow h => cases h; rfl

/-- A path through recipes one after the other goes through each of them, and their texts stand one
after the other. -/
theorem Path.of_concat {ι : Type} {f : ι → Recipe String} {is : List ι} {es : List Event}
    {text : String} (h : Path (concat (is.map f)) es text) :
    ∃ texts, text = String.join texts ∧
      List.Forall₂ (fun i t => ∃ es', es' ⊆ es ∧ Path (f i) es' t) is texts := by
  induction is generalizing es text with
  | nil =>
    obtain ⟨-, rfl⟩ := Path.of_pure h
    exact ⟨[], String.join_nil.symm, .nil⟩
  | cons i is ih =>
    obtain ⟨es₁, first, es₂, rfl, hfirst, hrest⟩ := Path.of_bind h
    obtain ⟨es₂, others, es₃, rfl, hothers, hpure⟩ := hrest.of_bind
    obtain ⟨rfl, rfl⟩ := hpure.of_pure
    obtain ⟨texts, rfl, htexts⟩ := ih hothers
    refine ⟨first :: texts, String.join_cons.symm, .cons ⟨es₁, ?_, hfirst⟩ (htexts.imp ?_)⟩
    · exact List.subset_append_left _ _
    · rintro j t ⟨es', hsub, hpath⟩
      refine ⟨es', fun e he => ?_, hpath⟩
      exact List.mem_append_right _ (List.mem_append_left _ (hsub he))

/-- A diagnostic is recorded and stands as a comment for the code. -/
theorem Path.of_diagnose {severity : Severity} {b : Block} {message : String} {es : List Event}
    {line : String} (h : Path (diagnose severity b message) es line) :
    ∃ d : Diagnostic, d = ⟨severity, b.id, b.type, message⟩ ∧ es = [.did (.diagnose d) ()] ∧
      line = d.comment := by
  obtain ⟨es₁, _, es₂, rfl, hperform, hpure⟩ := h.of_bind
  obtain ⟨rfl, rfl⟩ := hpure.of_pure
  rw [hperform.of_perform]
  exact ⟨_, rfl, rfl, rfl⟩

/-! ## The facts that a recipe meets -/

/-- On every path, given that the code of blocks is closed, the blocks asked for are some of `plan` in
its order, each action is one of `allowed`, and the outcome satisfies `yields`. -/
def Meets (plan : List BlockId) (allowed : Action → Prop) (yields : α → Prop) (r : Recipe α) : Prop :=
  ∀ es a, Path r es a → (∀ e ∈ es, e.IsClosed) →
    (Event.asked es).Sublist plan ∧ (∀ action ∈ Event.actions es, allowed action) ∧ yields a

variable {plan plan' : List BlockId} {allowed allowed' : Action → Prop} {yields : α → Prop}
  {yields' : β → Prop}

theorem Meets.pure {a : α} (h : yields a) : (Pure.pure a : Recipe α).Meets [] allowed yields := by
  intro es b hpath _
  obtain ⟨rfl, rfl⟩ := hpath.of_pure
  exact ⟨.slnil, nofun, h⟩

theorem Meets.bind {r : Recipe α} {f : α → Recipe β} (hr : r.Meets plan allowed yields)
    (hf : ∀ a, yields a → (f a).Meets plan' allowed yields') :
    (r >>= f).Meets (plan ++ plan') allowed yields' := by
  intro es b hpath hclosed
  obtain ⟨es₁, a, es₂, rfl, h₁, h₂⟩ := hpath.of_bind
  obtain ⟨hasked₁, hacts₁, ha⟩ := hr es₁ a h₁ fun e he => hclosed e (List.mem_append_left _ he)
  obtain ⟨hasked₂, hacts₂, hb⟩ :=
    hf a ha es₂ b h₂ fun e he => hclosed e (List.mem_append_right _ he)
  refine ⟨?_, fun action haction => ?_, hb⟩
  · rw [Event.asked_append]
    exact hasked₁.append hasked₂
  · rw [Event.actions_append] at haction
    rcases List.mem_append.1 haction with haction | haction
    · exact hacts₁ action haction
    · exact hacts₂ action haction

/-- What follows asks for no block. -/
theorem Meets.bind_nil {r : Recipe α} {f : α → Recipe β} (hr : r.Meets plan allowed yields)
    (hf : ∀ a, yields a → (f a).Meets [] allowed yields') :
    (r >>= f).Meets plan allowed yields' := by
  have hbind := hr.bind hf
  rwa [List.append_nil] at hbind

/-- A recipe meets weaker facts as well. -/
theorem Meets.mono {r : Recipe α} {weaker : α → Prop} (h : r.Meets plan allowed yields)
    (hplan : plan.Sublist plan') (hallowed : ∀ action, allowed action → allowed' action)
    (hyields : ∀ a, yields a → weaker a) : r.Meets plan' allowed' weaker := by
  intro es a hpath hclosed
  obtain ⟨hasked, hacts, ha⟩ := h es a hpath hclosed
  exact ⟨hasked.trans hplan, fun action haction => hallowed action (hacts action haction),
    hyields a ha⟩

/-- A recipe that asks for no block. -/
theorem Meets.of_nil {r : Recipe α} (h : r.Meets [] allowed yields) (plan : List BlockId) :
    r.Meets plan allowed yields :=
  h.mono (List.nil_sublist plan) (fun _ => id) fun _ => id

theorem Meets.perform {action : Action} (h : allowed action) :
    (Recipe.perform action).Meets [] allowed fun _ => True := by
  intro es answer hpath _
  rw [hpath.of_perform]
  refine ⟨.slnil, fun other hother => ?_, trivial⟩
  obtain rfl : other = action := List.mem_singleton.1 hother
  exact h

theorem Meets.code (id : BlockId) : (Recipe.code id).Meets [id] allowed Fragment.IsClosed := by
  intro es fragment hpath hclosed
  cases hpath with
  | emit fragment hpath =>
    cases hpath
    exact ⟨List.Sublist.refl _, nofun, hclosed _ List.mem_cons_self⟩

theorem Meets.freshName (stem : String) :
    (Recipe.freshName stem).Meets [] allowed fun _ => True := by
  intro es name hpath _
  cases hpath with
  | fresh n hpath =>
    cases hpath
    exact ⟨.slnil, nofun, trivial⟩

theorem Meets.overflowUnless (fits : Bool) :
    (Recipe.overflowUnless fits).Meets [] allowed fun _ => True := by
  intro es a hpath _
  rw [hpath.of_overflowUnless]
  exact ⟨.slnil, nofun, trivial⟩

/-- Texts that are closed one by one are closed together. -/
theorem Meets.concat {ι : Type} {f : ι → Recipe String} {plans : ι → List BlockId} {is : List ι}
    (h : ∀ i ∈ is, (f i).Meets (plans i) allowed Text.IsClosed) :
    (Recipe.concat (is.map f)).Meets (is.flatMap plans) allowed Text.IsClosed := by
  induction is with
  | nil => exact .pure Text.isClosed_empty
  | cons i is ih =>
    have hothers := ih fun j hj => h j (List.mem_cons_of_mem i hj)
    refine (h i List.mem_cons_self).bind fun first hfirst => ?_
    refine (hothers.bind fun others hothers => .pure (hfirst.append hothers)).mono ?_ (fun _ => id)
      (fun _ => id)
    rw [List.append_nil]
    exact List.Sublist.refl _

end Recipe

end BlockCompiler
