import BlockCompiler.Proofs.Context
import BlockCompiler.Proofs.Emission.Program
import BlockCompiler.Proofs.Renumber.Catalog
import Mathlib.Logic.Equiv.Basic

set_option autoImplicit false

/-! # Programs of renumbered workspaces

The numbers of blocks leave no trace in a program. Two emissions are carried out side by side: in
states that agree but for the numbers and for what is told, a recipe and one that mirrors it have the
same outcome and lead to states that agree again. Only blocks that take part in the program are ever
asked for, so nothing is needed of the recipes of others. A workspace under other numbers compiles to
the same program with the same diagnostics. -/

namespace BlockCompiler

variable {σ : Equiv.Perm BlockId} {tells : Diagnostic → Diagnostic → Prop}

/-! ## States -/

/-- States that differ in the numbers of blocks and in the diagnostics, where those of one state tell
those of the other in turn. -/
structure Emission.Mirrors (σ : BlockId → BlockId) (tells : Diagnostic → Diagnostic → Prop)
    (s s' : Emission) : Prop where
  context : s'.context = { s.context with diagnostics := s'.context.diagnostics }
  diagnostics : List.Forall₂ tells s.context.diagnostics s'.context.diagnostics
  active : s'.active = s.active.map σ
  names : s'.names = s.names

namespace Emission.Mirrors

variable {s s' : Emission}

/-- A diagnostic may be recorded beside one that it tells. -/
theorem diagnose (h : s.Mirrors σ tells s') {d d' : Diagnostic} (htells : tells d d') :
    (s.perform (.diagnose d)).2.Mirrors σ tells (s'.perform (.diagnose d')).2 where
  context := by
    show { s'.context with diagnostics := s'.context.diagnostics ++ [d'] } = _
    rw [h.context]
    rfl
  diagnostics := List.rel_append h.diagnostics (.cons htells .nil)
  active := h.active
  names := h.names

theorem perform_eq (h : s.Mirrors σ tells s') (action : Action) :
    action.perform s'.context =
      ((action.perform s.context).1,
        { (action.perform s.context).2 with
          diagnostics := s'.context.diagnostics ++ action.diagnostic?.toList }) := by
  have hperform := action.perform_withDiagnostics s.context s'.context.diagnostics
  rwa [← h.context] at hperform

/-- An action has the same answer in both states. -/
theorem perform_fst (h : s.Mirrors σ tells s') (action : Action) :
    (s'.perform action).1 = (s.perform action).1 := by
  show (action.perform s'.context).1 = (action.perform s.context).1
  rw [h.perform_eq]

/-- States that mirror each other do so after every action. -/
theorem perform (hrefl : ∀ d, tells d d) (h : s.Mirrors σ tells s') (action : Action) :
    (s.perform action).2.Mirrors σ tells (s'.perform action).2 where
  context := by
    show (action.perform s'.context).2 =
      { (action.perform s.context).2 with diagnostics := (action.perform s'.context).2.diagnostics }
    rw [Action.perform_diagnostics, h.perform_eq]
  diagnostics := by
    rw [Emission.perform_diagnostics, Emission.perform_diagnostics]
    exact List.rel_append h.diagnostics (List.forall₂_same.2 fun d _ => hrefl d)
  active := h.active
  names := h.names

theorem enter (h : s.Mirrors σ tells s') (id : BlockId) :
    (s.enter id).Mirrors σ tells (s'.enter (σ id)) where
  context := h.context
  diagnostics := h.diagnostics
  active := congrArg (σ id :: ·) h.active
  names := h.names

theorem leave (h : s.Mirrors σ tells s') (id id' : BlockId) (fragment : Fragment) :
    (s.leave id fragment).Mirrors σ tells (s'.leave id' fragment) where
  context := h.context
  diagnostics := h.diagnostics
  active := (congrArg List.tail h.active).trans List.map_tail.symm
  names := h.names

theorem draw (h : s.Mirrors σ tells s') :
    { s with names := s.names + 1 }.Mirrors σ tells { s' with names := s'.names + 1 } where
  context := h.context
  diagnostics := h.diagnostics
  active := h.active
  names := congrArg (· + 1) h.names

end Emission.Mirrors

/-! ## Layout -/

namespace Project

theorem untypedNames_withDiagnostics (c : Context) (told : List Diagnostic)
    (taken declared : List String) :
    untypedNames { c with diagnostics := told } taken declared = untypedNames c taken declared := by
  induction declared generalizing taken with
  | nil => rfl
  | cons name declared ih => simp only [untypedNames, ih]

/-- The text of a program depends on the variables and on what was registered. -/
theorem layout_congr {p p' : Project}
    (hnames : p'.workspace.variableNames = p.workspace.variableNames) (c : Context)
    (told : List Diagnostic) (body : String) :
    p'.layout { c with diagnostics := told } body = p.layout c body := by
  unfold layout parts variableDeclarations
  simp only [hnames, untypedNames_withDiagnostics]
  rfl

end Project

namespace Project.Agrees

open Emit

variable {p p' : Project} (h : p.Agrees σ p')

include h

/-! ## Carrying recipes out -/

theorem nested {s s' : Emission} (hs : s.Nested p.workspace) (hactive : s'.active = s.active.map σ) :
    s'.Nested p'.workspace where
  nodup := hactive ▸ hs.nodup.map σ.injective
  valid j hj := by
    rw [hactive] at hj
    obtain ⟨id, hid, rfl⟩ := List.mem_map.1 hj
    have hrange : id ∈ List.range p.workspace.size := List.mem_range.2 (hs.valid id hid)
    exact List.mem_range.1 (h.numbers.mem_iff.2 (List.mem_map_of_mem hrange))

omit h in
/-- The code of a block that takes part is the same from a state that mirrors the other, and the
states mirror each other again. -/
def EmitsAlike (σ : BlockId → BlockId) (tells : Diagnostic → Diagnostic → Prop) (p p' : Project) :
    Law := fun id s fragment t =>
  s.Nested p.workspace → p.workspace.takesPart id = true → ∀ s', s.Mirrors σ tells s' →
    (p'.emit (σ id) s').1 = fragment ∧ t.Mirrors σ tells (p'.emit (σ id) s').2

variable (hrefl : ∀ d, tells d d)

include hrefl

omit h in
/-- A recipe does what one that it mirrors does along any path that asks for blocks that take
part. -/
theorem run_mirrors {α : Type} {active : List BlockId} {r r' : Recipe α} {es : List Event} {a : α}
    {s t s' : Emission} (hr : r.Mirrors σ tells r') (hpath : r.Path es a)
    (hsteps : Emission.Steps (EmitsAlike σ tells p p') active es s t)
    (hnested : ∀ u : Emission, u.active = active → u.Nested p.workspace)
    (hasked : ∀ id ∈ Event.asked es, p.workspace.takesPart id = true) (hs : s.Mirrors σ tells s') :
    (p'.run r' s').1 = a ∧ t.Mirrors σ tells (p'.run r' s').2 := by
  induction hr generalizing es s s' with
  | done a =>
    cases hpath
    cases hsteps
    exact ⟨rfl, hs⟩
  | @act action next next' _ ih =>
    cases hpath with
    | act answer hpath =>
      cases hsteps with
      | did _ hsteps =>
        show (p'.run (next' (s'.perform action).1) (s'.perform action).2).1 = a ∧
          t.Mirrors σ tells (p'.run (next' (s'.perform action).1) (s'.perform action).2).2
        rw [hs.perform_fst]
        exact ih _ hpath hsteps hasked (hs.perform hrefl action)
  | diagnose htells _ ih =>
    cases hpath with
    | act answer hpath =>
      cases hsteps with
      | did _ hsteps => exact ih hpath hsteps hasked (hs.diagnose htells)
  | @emit id next next' _ ih =>
    cases hpath with
    | emit fragment hpath =>
      cases hsteps with
      | made hactive hlaw hsteps =>
        obtain ⟨hcode, hmirrors⟩ :=
          hlaw (hnested _ hactive) (hasked id List.mem_cons_self) s' hs
        show (p'.run (next' (p'.emit (σ id) s').1) (p'.emit (σ id) s').2).1 = a ∧
          t.Mirrors σ tells (p'.run (next' (p'.emit (σ id) s').1) (p'.emit (σ id) s').2).2
        rw [hcode]
        exact ih _ hpath hsteps (fun j hj => hasked j (List.mem_cons_of_mem _ hj)) hmirrors
  | @fresh next next' _ ih =>
    cases hpath with
    | fresh n hpath =>
      cases hsteps with
      | drew hsteps =>
        have hdraw := hs.draw
        show (p'.run (next' s'.names) { s' with names := s'.names + 1 }).1 = a ∧
          t.Mirrors σ tells (p'.run (next' s'.names) { s' with names := s'.names + 1 }).2
        rw [hs.names] at hdraw ⊢
        exact ih _ hpath hsteps hasked hdraw
  | overflow _ ih =>
    cases hpath with
    | overflow hpath => exact ih hpath hsteps hasked hs

variable (hrecipe : ∀ {id b b'}, p.workspace.block? id = some b →
  p'.workspace.block? (σ id) = some b' → b.disabled = false →
  (Emit.recipe p id b).Mirrors σ tells (Emit.recipe p' (σ id) b'))

include hrecipe

/-- The code of every block that takes part is the same in both projects. -/
theorem emit_mirrors (id : BlockId) (s : Emission) (hs : s.Nested p.workspace) :
    EmitsAlike σ tells p p' id s (p.emit id s).1 (p.emit id s).2 := by
  refine (emit_induction (EmitsAlike σ tells p p') ?_ ?_ ?_ id s hs).2
  · intro id s hb _ htakes
    obtain ⟨b, hfound, -⟩ := Workspace.takesPart_eq_true_iff.1 htakes
    rw [hb] at hfound
    cases hfound
  · intro id b s hb hid hnested htakes s' hs'
    obtain ⟨b', hb', hrel⟩ := h.of_some hb
    obtain ⟨found, hfound, hdisabled⟩ := Workspace.takesPart_eq_true_iff.1 htakes
    obtain rfl : b = found := Option.some_inj.1 (hb.symm.trans hfound)
    have hid' : σ id ∈ s'.active := hs'.active ▸ List.mem_map_of_mem hid
    have hself : selfConnected b' = selfConnected b := by
      unfold selfConnected
      rw [(hrel.content hdisabled).warning]
    rw [emit_of_active hb' hid', hself]
    exact ⟨rfl, hs'.perform hrefl
      (.diagnose ⟨.warning, b.id, b.type, "Block is connected to itself; skipped."⟩)⟩
  · intro id b s es fragment t hb hid htook hsteps hnested htakes s' hs'
    obtain ⟨b', hb', hrel⟩ := h.of_some hb
    obtain ⟨found, hfound, hdisabled⟩ := Workspace.takesPart_eq_true_iff.1 htakes
    obtain rfl : b = found := Option.some_inj.1 (hb.symm.trans hfound)
    have hid' : σ id ∉ s'.active := by
      rw [hs'.active, List.mem_map_of_injective σ.injective]
      exact hid
    obtain ⟨hcode, hmirrors⟩ := run_mirrors hrefl (hrecipe hb hb' hdisabled) htook.path hsteps
      (fun u hu => (hnested.enter hb hid).of_active_eq hu)
      (fun j hj => takesPart_of_mem_reads (htook.asked.subset hj)) (hs'.enter id)
    rw [emit_of_not_active hb' (h.nested hnested hs'.active) hid', hcode]
    exact ⟨rfl, hmirrors.leave id (σ id) fragment⟩

/-! ## Stacks on the canvas -/

variable (hcyclic : p.TellsCycles σ p' tells)

omit hrefl hrecipe in
include hcyclic in
theorem stackCode_mirrors {id : BlockId} (hid : id ∈ p.workspace.topBlocks) :
    (p.stackCode id).Mirrors σ tells (p'.stackCode (σ id)) := by
  unfold stackCode
  cases hb : p.workspace.block? id with
  | none =>
    rw [h.of_none hb]
    exact .pure ""
  | some b =>
    obtain ⟨b', hb', hrel⟩ := h.of_some hb
    simp only [hb', h.shape id hid b b' hb hb', hrel.disabled]
    split
    · split
      · exact chain_mirrors h hcyclic id
      · refine .bind (.of_eq rfl) fun fragment => ?_
        cases fragment <;> exact .pure _
    · exact .pure ""
    · exact chain_mirrors h hcyclic id

omit hrefl hrecipe in
include hcyclic in
theorem mainBody_mirrors : p.mainBody.Mirrors σ tells p'.mainBody := by
  unfold mainBody
  rw [h.topBlocks]
  refine .bind (.of_eq rfl) fun _ => .concat ?_
  rw [List.map_map, List.forall₂_map_left_iff, List.forall₂_map_right_iff]
  exact List.forall₂_same.2 fun id hid => stackCode_mirrors h hcyclic hid

/-! ## Programs -/

include hcyclic

/-- Agreeing projects compile to the same text, and the diagnostics of one tell those of the other in
turn. -/
theorem compile_mirrors : p'.compile.source = p.compile.source ∧
    List.Forall₂ tells p.compile.diagnostics p'.compile.diagnostics := by
  obtain ⟨es, hpath, hsteps, -, hasked, -⟩ := final_steps (h.emit_mirrors hrefl hrecipe)
  have hempty : Emission.empty.Mirrors σ tells Emission.empty := ⟨rfl, .nil, rfl, rfl⟩
  obtain ⟨hbody, hfinal⟩ := run_mirrors hrefl (mainBody_mirrors h hcyclic) hpath hsteps
    (fun u hu => (Emission.Nested.empty p.workspace).of_active_eq hu)
    (fun id hid => takesPart_of_mem_mainReads (hasked.subset hid)) hempty
  refine ⟨?_, hfinal.diagnostics⟩
  show p'.layout (p'.run p'.mainBody .empty).2.context (p'.run p'.mainBody .empty).1 =
    p.layout p.final.context (p.run p.mainBody .empty).1
  rw [hbody, hfinal.context]
  exact layout_congr h.variableNames _ _ _

end Project.Agrees

namespace Project.Corresponds

variable {p p' : Project} (h : p.Corresponds σ p')

include h

/-- Corresponding projects compile to the same program if their enabled blocks have the same
recipes. -/
theorem compile_eq_of_enabled
    (hrecipe : ∀ {id b b'}, p.workspace.block? id = some b →
      p'.workspace.block? (σ id) = some b' → b.disabled = false →
      Emit.recipe p' (σ id) b' = (Emit.recipe p id b).renumber σ) :
    p'.compile = p.compile := by
  obtain ⟨hsource, hdiagnostics⟩ := h.compile_mirrors (fun _ => rfl)
    (fun hb hb' henabled => .of_eq (hrecipe hb hb' henabled)) h.tellsCycles
  rw [List.forall₂_eq_eq_eq] at hdiagnostics
  generalize p.compile = program, p'.compile = program' at hsource hdiagnostics
  cases program
  cases program'
  exact congrArg₂ Program.mk hsource hdiagnostics.symm

/-- Corresponding projects compile to the same program if their blocks have the same recipes. -/
theorem compile_eq
    (hrecipe : ∀ {id b b'}, p.workspace.block? id = some b →
      p'.workspace.block? (σ id) = some b' →
      Emit.recipe p' (σ id) b' = (Emit.recipe p id b).renumber σ) :
    p'.compile = p.compile :=
  h.compile_eq_of_enabled fun hb hb' _ => hrecipe hb hb'

end Project.Corresponds

/-! ## Workspaces -/

namespace Workspace

/-- The program and its diagnostics depend on the blocks and their links, not on the numbers of the
blocks: a workspace that holds the same blocks under other numbers compiles to the same program, for
whatever board. Links may form cycles; only the canvas order has to tell the stacks apart and the
order of sockets the sockets of each block. -/
theorem compile_eq_of_renumbers {σ : Equiv.Perm BlockId} {w w' : Workspace} (h : w.Renumbers σ w')
    (hvalid : w.IsValid) (hdistinct : w.HasDistinctKeys) (board : Board) :
    Project.compile { workspace := w', board } = Project.compile { workspace := w, board } := by
  have hrel := h.corresponds hvalid hdistinct board
  refine hrel.compile_eq fun {id b b'} hb hb' => ?_
  obtain ⟨found, hfound, hsame⟩ := h.of_some hb
  obtain rfl : found = b' := Option.some_inj.1 (hfound.symm.trans hb')
  exact Emit.recipe_renumber hrel (hsame.matches hdistinct hb) id fun _ _ _ => rfl

/-- A loop that holds itself, and a pause and a break one below the other in a circle. -/
def tangled : Workspace where
  blocks := #[
    { id := "loop", type := "controls_repeat", statements := ⟨[("DO", 0)]⟩, next := some 1 },
    { id := "pause", type := "base_delay", next := some 2 },
    { id := "break", type := "break", next := some 1, y := 9 }]
  top := [0, 2]
  index := [0, 1, 2]

/-- The same blocks with the loop and the break exchanged. -/
def tangledBackwards : Workspace where
  blocks := #[
    { id := "break", type := "break", next := some 1, y := 9 },
    { id := "pause", type := "base_delay", next := some 0 },
    { id := "loop", type := "controls_repeat", statements := ⟨[("DO", 2)]⟩, next := some 1 }]
  top := [2, 0]
  index := [0, 1, 2]

theorem tangled_renumbers : tangled.Renumbers (Equiv.swap 0 2) tangledBackwards where
  size := rfl
  block? (id : Nat) := by
    match id with
    | 0 => exact .some ⟨rfl, rfl, rfl, .refl _, .refl _, rfl, rfl, rfl, rfl, rfl⟩
    | 1 => exact .some ⟨rfl, rfl, rfl, .refl _, .refl _, rfl, rfl, rfl, rfl, rfl⟩
    | 2 => exact .some ⟨rfl, rfl, rfl, .refl _, .refl _, rfl, rfl, rfl, rfl, rfl⟩
    | id + 3 =>
      have hfirst : id + 3 ≠ 0 := by omega
      have hlast : id + 3 ≠ 2 := by omega
      rw [Equiv.swap_apply_of_ne_of_ne hfirst hlast]
      exact .none
  top := by decide
  index := by decide
  variableNames := rfl

theorem tangled_isValid : tangled.IsValid where
  links id := by
    match id with
    | 0 => decide
    | 1 => decide
    | 2 => decide
    | id + 3 => exact nofun
  top := by decide

theorem tangled_hasDistinctKeys : tangled.HasDistinctKeys := by
  have hsockets : ∀ b ∈ tangled.blocks, (b.values.keys.map SocketKey.ofName).Nodup ∧
      (b.statements.keys.map SocketKey.ofName).Nodup := by decide
  exact ⟨by decide, fun _ b hb => (hsockets b (Array.mem_of_getElem? hb)).1,
    fun _ b hb => (hsockets b (Array.mem_of_getElem? hb)).2⟩

theorem compile_eq_of_renumbers_tangled :
    tangled.Renumbers (Equiv.swap 0 2) tangledBackwards ∧ tangled.IsValid ∧
      tangled.HasDistinctKeys ∧ ∀ board : Board,
        Project.compile { workspace := tangledBackwards, board } =
          Project.compile { workspace := tangled, board } :=
  ⟨tangled_renumbers, tangled_isValid, tangled_hasDistinctKeys,
    compile_eq_of_renumbers tangled_renumbers tangled_isValid tangled_hasDistinctKeys⟩

end Workspace

end BlockCompiler
