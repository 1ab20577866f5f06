import BlockCompiler.Proofs.Emit.Catalog
import BlockCompiler.Proofs.Emission.Nesting
import BlockCompiler.Program

set_option autoImplicit false

/-! # Runs of recipes

Carrying a recipe out takes one of its paths, and every event of the path takes the emission from one
state to the next. `Emission.Steps` is that sequence of states. What the code of a block does is
left open in it, so a law of all emissions is proved by `Project.emit_induction`: the law may be
assumed of the blocks that a recipe asks for, with all that is known about the recipe. -/

namespace BlockCompiler

/-- A relation between a block, the state in front of its code, the code and the state behind it. -/
abbrev Law := BlockId → Emission → Fragment → Emission → Prop

namespace Emission

/-- The states along the events of a path, on which `active` blocks are being made. -/
inductive Steps (law : Law) (active : List BlockId) : List Event → Emission → Emission → Prop
  | nil (s : Emission) : Steps law active [] s s
  | did {s t : Emission} {es : List Event} (action : Action) :
    Steps law active es (s.perform action).2 t →
    Steps law active (.did action (s.perform action).1 :: es) s t
  | made {s t u : Emission} {es : List Event} {id : BlockId} {fragment : Fragment} :
    s.active = active → law id s fragment t → Steps law active es t u →
    Steps law active (.made id fragment :: es) s u
  | drew {s t : Emission} {es : List Event} :
    Steps law active es { s with names := s.names + 1 } t →
    Steps law active (.drew s.names :: es) s t

variable {law : Law} {active : List BlockId} {es : List Event} {s t : Emission}

/-- What every event keeps, with the answer that it got, is kept. -/
theorem Steps.invariant_of_events {I : Emission → Prop} (h : Steps law active es s t)
    (hdid : ∀ action s, Event.did action (s.perform action).1 ∈ es → I s → I (s.perform action).2)
    (hmade : ∀ id ∈ Event.asked es, ∀ s fragment t, s.active = active → law id s fragment t →
      I s → I t)
    (hdrew : ∀ s : Emission, I s → I { s with names := s.names + 1 }) (hs : I s) : I t := by
  induction h with
  | nil s => exact hs
  | did action h ih =>
    refine ih (fun a s ha => hdid a s (List.mem_cons_of_mem _ ha)) hmade ?_
    exact hdid action _ List.mem_cons_self hs
  | made hactive hlaw h ih =>
    refine ih (fun a s ha => hdid a s (List.mem_cons_of_mem _ ha))
      (fun j hj => hmade j (List.mem_cons_of_mem _ hj)) ?_
    exact hmade _ List.mem_cons_self _ _ _ hactive hlaw hs
  | drew h ih =>
    exact ih (fun a s ha => hdid a s (List.mem_cons_of_mem _ ha)) hmade (hdrew _ hs)

/-- What every action keeps is kept. -/
theorem Steps.invariant {I : Emission → Prop} (h : Steps law active es s t)
    (hdid : ∀ action ∈ Event.actions es, ∀ s, I s → I (s.perform action).2)
    (hmade : ∀ id ∈ Event.asked es, ∀ s fragment t, s.active = active → law id s fragment t →
      I s → I t)
    (hdrew : ∀ s : Emission, I s → I { s with names := s.names + 1 }) (hs : I s) : I t :=
  h.invariant_of_events (fun action s hmem => hdid action (List.mem_filterMap.2 ⟨_, hmem, rfl⟩) s)
    hmade hdrew hs

/-- What the law says of each fragment alone holds of all fragments that were made. -/
theorem Steps.forall_made {P : BlockId → Fragment → Prop} (h : Steps law active es s t)
    (hlaw : ∀ id s fragment t, law id s fragment t → P id fragment) {id : BlockId}
    {fragment : Fragment} (hmem : Event.made id fragment ∈ es) : P id fragment := by
  induction h with
  | nil s => cases hmem
  | did action h ih =>
    rcases List.mem_cons.1 hmem with heq | hmem
    · cases heq
    · exact ih hmem
  | made hactive hl h ih =>
    rcases List.mem_cons.1 hmem with heq | hmem
    · cases heq
      exact hlaw _ _ _ _ hl
    · exact ih hmem
  | drew h ih =>
    rcases List.mem_cons.1 hmem with heq | hmem
    · cases heq
    · exact ih hmem

/-- A law may be exchanged for a weaker one. -/
theorem Steps.imp {law' : Law} (h : Steps law active es s t)
    (hlaw : ∀ id s fragment t, law id s fragment t → law' id s fragment t) :
    Steps law' active es s t := by
  induction h with
  | nil s => exact .nil s
  | did action h ih => exact .did action ih
  | made hactive hl h ih => exact .made hactive (hlaw _ _ _ _ hl) ih
  | drew h ih => exact .drew ih

end Emission

namespace Project

variable {p : Project}

/-! ## Carrying a recipe out -/

/-- Carrying a recipe out takes one of its paths. -/
theorem run_steps (law : Law) {α : Type} {s : Emission} (hs : s.Nested p.workspace)
    (hlaw : ∀ id t, Emission.Nested p.workspace t → t.active = s.active →
      law id t (p.emit id t).1 (p.emit id t).2) (r : Recipe α) :
    ∃ es, r.Path es (p.run r s).1 ∧ Emission.Steps law s.active es s (p.run r s).2 := by
  obtain ⟨active, hactive⟩ : ∃ active, active = s.active := ⟨_, rfl⟩
  rw [← hactive] at hlaw ⊢
  induction r generalizing s with
  | done a => exact ⟨[], .done a, .nil s⟩
  | act action next ih =>
    obtain ⟨es, hpath, hsteps⟩ := ih (s := (s.perform action).2) (s.perform action).1
      (hs.of_active_eq rfl) hactive
    exact ⟨_, .act _ hpath, .did action hsteps⟩
  | emit id next ih =>
    have hkeep := p.emit_active id s
    obtain ⟨es, hpath, hsteps⟩ :=
      ih (p.emit id s).1 (hs.of_active_eq hkeep) (hactive.trans hkeep.symm)
    exact ⟨_, .emit _ hpath, .made hactive.symm (hlaw id s hs hactive.symm) hsteps⟩
  | fresh next ih =>
    obtain ⟨es, hpath, hsteps⟩ := ih (s := { s with names := s.names + 1 }) s.names
      (hs.of_active_eq rfl) hactive
    exact ⟨_, .fresh _ hpath, .drew hsteps⟩
  | overflow next ih =>
    obtain ⟨es, hpath, hsteps⟩ := ih hs hactive
    exact ⟨es, .overflow hpath, hsteps⟩

/-! ## Laws of all emissions -/

/-- A law holds of all code if it holds where there is no block, where a block is asked for while it
is being made, and of a recipe that was carried out, given that it holds of the blocks that the
recipe asked for. -/
theorem emit_law (law : Law)
    (missing : ∀ id s, p.workspace.block? id = none → law id s (.statement "") s)
    (again : ∀ id b s, p.workspace.block? id = some b → id ∈ s.active →
      law id s (p.run (selfConnected b) s).1 (p.run (selfConnected b) s).2)
    (once : ∀ id b s es fragment t, p.workspace.block? id = some b → id ∉ s.active →
      (Emit.recipe p id b).Path es fragment → Emission.Steps law (id :: s.active) es (s.enter id) t →
      law id s fragment (t.leave id fragment))
    (id : BlockId) (s : Emission) (hs : s.Nested p.workspace) :
    law id s (p.emit id s).1 (p.emit id s).2 := by
  -- the number of blocks that are not active goes down by one on the way into a block
  obtain ⟨n, hn⟩ : ∃ n, p.workspace.size < n + s.active.length := ⟨p.workspace.size + 1, by omega⟩
  induction n generalizing id s with
  | zero => exact absurd hs.length_le (by omega)
  | succ n ih =>
    cases hb : p.workspace.block? id with
    | none =>
      rw [emit_of_missing hb]
      exact missing id s hb
    | some b =>
      by_cases hid : id ∈ s.active
      · rw [emit_of_active hb hid]
        exact again id b s hb hid
      · have henter := hs.enter hb hid
        have hlength : (s.enter id).active.length = s.active.length + 1 := rfl
        obtain ⟨es, hpath, hsteps⟩ := run_steps law henter (fun j t ht hactive =>
          ih j t ht (by rw [hactive]; omega)) (Emit.recipe p id b)
        rw [emit_of_not_active hb hs hid]
        exact once id b s es _ _ hb hid hpath hsteps

/-- A path that a recipe took, with what is known about the recipe. -/
structure Took (p : Project) (id : BlockId) (b : Block) (es : List Event) (fragment : Fragment) :
    Prop where
  path : (Emit.recipe p id b).Path es fragment
  closed : ∀ e ∈ es, e.IsClosed
  asked : (Event.asked es).Sublist (p.reads b)
  allowed : ∀ action ∈ Event.actions es, p.Allows b action

theorem Took.allowed_of_kind {id : BlockId} {b : Block} {es : List Event} {fragment : Fragment}
    (h : p.Took id b es fragment) {kind : Kind} (hkind : Kind.ofName? b.type = some kind)
    {action : Action} (haction : action ∈ Event.actions es) : Emit.Allowed p b kind action := by
  have hallows := h.allowed action haction
  unfold Allows at hallows
  rwa [hkind] at hallows

/-- What a recipe does when all code that it asked for is closed. -/
theorem Took.of_path {id : BlockId} {b : Block} {es : List Event} {fragment : Fragment}
    (hpath : (Emit.recipe p id b).Path es fragment)
    (hmade : ∀ j f, Event.made j f ∈ es → f.IsClosed) :
    p.Took id b es fragment ∧ fragment.IsClosed := by
  have hclosed : ∀ e ∈ es, e.IsClosed := by
    intro e he
    cases e with
    | made j f => exact hmade j f he
    | did action answer => trivial
    | drew n => trivial
  obtain ⟨hasked, hallowed, hfragment⟩ := p.recipe_meets id b es fragment hpath hclosed
  exact ⟨⟨hpath, hclosed, hasked, hallowed⟩, hfragment⟩

/-- A law holds of all code, besides that it is closed, if it holds where there is no block, where a
block is asked for while it is being made, and of a path that a recipe took, given that it holds of
the blocks asked for. -/
theorem emit_induction (law : Law)
    (missing : ∀ id s, p.workspace.block? id = none → law id s (.statement "") s)
    (again : ∀ id b s, p.workspace.block? id = some b → id ∈ s.active →
      law id s (p.run (selfConnected b) s).1 (p.run (selfConnected b) s).2)
    (once : ∀ id b s es fragment t, p.workspace.block? id = some b → id ∉ s.active →
      p.Took id b es fragment → Emission.Steps law (id :: s.active) es (s.enter id) t →
      law id s fragment (t.leave id fragment))
    (id : BlockId) (s : Emission) (hs : s.Nested p.workspace) :
    (p.emit id s).1.IsClosed ∧ law id s (p.emit id s).1 (p.emit id s).2 := by
  -- that code is closed is proved along, since what a recipe does may depend on it
  refine emit_law (fun id s fragment t => fragment.IsClosed ∧ law id s fragment t) ?_ ?_ ?_ id s hs
  · exact fun id s hb => ⟨Text.isClosed_empty, missing id s hb⟩
  · intro id b s hb hid
    refine ⟨?_, again id b s hb hid⟩
    simp only [selfConnected, Recipe.warning, Recipe.diagnose, run_bind, run_pure]
    exact Emit.isClosed_comment _
  · intro id b s es fragment t hb hid hpath hsteps
    obtain ⟨htook, hclosed⟩ := Took.of_path hpath fun j f hmem =>
      hsteps.forall_made (P := fun _ f => f.IsClosed) (fun _ _ _ _ h => h.1) hmem
    exact ⟨hclosed, once id b s es fragment t hb hid htook (hsteps.imp fun _ _ _ _ h => h.2)⟩

/-- The code of every block is closed. -/
theorem emit_isClosed (id : BlockId) (s : Emission) (hs : s.Nested p.workspace) :
    (p.emit id s).1.IsClosed :=
  (emit_induction (fun _ _ _ _ => True) (fun _ _ _ => trivial) (fun _ _ _ _ _ => trivial)
    (fun _ _ _ _ _ _ _ _ _ _ => trivial) id s hs).1

end Project

end BlockCompiler
