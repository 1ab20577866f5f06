import BlockCompiler.Proofs.Emission.Laid
import BlockCompiler.Proofs.Emission.Overflow
import BlockCompiler.Proofs.Workspace.Walk

set_option autoImplicit false

/-! # Termination

`Project.emit` and the walks over a workspace count down, so that they end is plain; what has to be
shown is that the counts cut nothing off. `Project.Evaluates` carries recipes out without a count: a
recipe evaluates to what a finite derivation gives, on any graph of links. The program of a workspace
with valid links has such a derivation, in which blocks are nested no deeper than there are blocks,
and every call leaves the stack of active blocks as it found it. In a build that checks arithmetic it has
one just if no block computes what does not fit into 64 bits: such a build stops there for good. -/

namespace BlockCompiler

namespace Project

/-! ## Evaluation -/

/-- Carrying a recipe out yields an outcome and a state, in a build that checks arithmetic or in one that
does not. `depth` counts the running blocks around a request: every request for the code of a block, a
refused one as well, is nested in at most `depth` blocks whose recipes have been started on the way from
here. A block that is active is refused with a warning and opens no level. There is no rule for a
number without a block, nor for an overflow in a build that checks. -/
inductive Evaluates (p : Project) (checks : Bool) :
    {α : Type} → Nat → Recipe α → Emission → α → Emission → Prop
  | done {α : Type} {depth : Nat} {s : Emission} (a : α) : Evaluates p checks depth (.done a) s a s
  | act {α : Type} {depth : Nat} {action : Action} {next : action.Answer → Recipe α}
    {s t : Emission} {a : α} :
    Evaluates p checks depth (next (s.perform action).1) (s.perform action).2 a t →
    Evaluates p checks depth (.act action next) s a t
  | fresh {α : Type} {depth : Nat} {next : Nat → Recipe α} {s t : Emission} {a : α} :
    Evaluates p checks depth (next s.names) { s with names := s.names + 1 } a t →
    Evaluates p checks depth (.fresh next) s a t
  | overflow {α : Type} {depth : Nat} {next : Recipe α} {s t : Emission} {a : α} :
    checks = false → Evaluates p checks depth next s a t → Evaluates p checks depth (.overflow next) s a t
  | again {α : Type} {depth : Nat} {id : BlockId} {b : Block} {next : Fragment → Recipe α}
    {s t u : Emission} {fragment : Fragment} {a : α} :
    p.workspace.block? id = some b → id ∈ s.active →
    Evaluates p checks depth (selfConnected b) s fragment t →
    Evaluates p checks depth (next fragment) t a u → Evaluates p checks depth (.emit id next) s a u
  | once {α : Type} {depth : Nat} {id : BlockId} {b : Block} {next : Fragment → Recipe α}
    {s t u : Emission} {fragment : Fragment} {a : α} :
    p.workspace.block? id = some b → id ∉ s.active →
    Evaluates p checks depth (Emit.recipe p id b) (s.enter id) fragment t →
    Evaluates p checks (depth + 1) (next fragment) (t.leave id fragment) a u →
    Evaluates p checks (depth + 1) (.emit id next) s a u

variable {p : Project} {checks : Bool} {α : Type} {depth : Nat} {r : Recipe α} {s t : Emission}
  {a : α}

/-- Whatever is evaluated, the same blocks are active afterwards. -/
theorem Evaluates.active (h : p.Evaluates checks depth r s a t) : t.active = s.active := by
  induction h with
  | done a => rfl
  | act _ ih => exact ih
  | fresh _ ih => exact ih
  | overflow _ _ ih => exact ih
  | again _ _ _ _ ihself ihnext => exact ihnext.trans ihself
  | once _ _ _ _ ihrecipe ihnext => exact ihnext.trans (congrArg List.tail ihrecipe)

/-- The program does what the evaluation says, so a recipe evaluates in one way. -/
theorem Evaluates.run_eq (h : p.Evaluates checks depth r s a t) (hs : s.Nested p.workspace) :
    p.run r s = (a, t) := by
  induction h with
  | done a => rfl
  | act _ ih => exact ih (hs.of_active_eq rfl)
  | fresh _ ih => exact ih (hs.of_active_eq rfl)
  | overflow _ _ ih => exact ih hs
  | @again _ _ id b next s t u fragment a hb hid hself _ ihself ihnext =>
    show p.run (next (p.emit id s).1) (p.emit id s).2 = _
    rw [emit_of_active hb hid, ihself hs]
    exact ihnext (hs.of_active_eq hself.active)
  | @once _ _ id b next s t u fragment a hb hid hrecipe _ ihrecipe ihnext =>
    show p.run (next (p.emit id s).1) (p.emit id s).2 = _
    rw [emit_of_not_active hb hs hid, ihrecipe (hs.enter hb hid)]
    exact ihnext (hs.of_active_eq (congrArg List.tail hrecipe.active))

/-- After the code of a block a recipe goes on. -/
theorem Evaluates.emit {id : BlockId} {next : Fragment → Recipe α} {fragment : Fragment}
    {u : Emission} (h : p.Evaluates checks depth (Recipe.code id) s fragment t)
    (hnext : p.Evaluates checks depth (next fragment) t a u) :
    p.Evaluates checks depth (.emit id next) s a u := by
  cases h with
  | again hb hid hself hdone =>
    cases hdone
    exact .again hb hid hself hnext
  | once hb hid hrecipe hdone =>
    cases hdone
    exact .once hb hid hrecipe hnext

/-- What is evaluated with checks stays within the words. -/
theorem Evaluates.fits (h : p.Evaluates true depth r s a t) (hs : s.Nested p.workspace) :
    p.Fits r s := by
  induction h with
  | done a => exact ⟨not_false, nofun⟩
  | act _ ih =>
    have hnext := ih (hs.of_active_eq rfl)
    refine ⟨hnext.own, fun id b t hstart => ?_⟩
    cases hstart with
    | act hstart => exact hnext.blocks id b t hstart
  | fresh _ ih =>
    have hnext := ih (hs.of_active_eq rfl)
    refine ⟨hnext.own, fun id b t hstart => ?_⟩
    cases hstart with
    | fresh hstart => exact hnext.blocks id b t hstart
  | overflow hchecks _ _ => cases hchecks
  | @again _ _ id b next s t u fragment a hb hid hself _ _ ihnext =>
    have hemit : p.emit id s = (fragment, t) := (emit_of_active hb hid).trans (hself.run_eq hs)
    have hnext := ihnext (hs.of_active_eq hself.active)
    refine ⟨?_, fun j c u hstart => ?_⟩
    · show ¬(next (p.emit id s).1).Overflows p.emit (p.emit id s).2
      rw [hemit]
      exact hnext.own
    · cases hstart with
      | here _ hnot => exact absurd hid hnot
      | inside _ hnot => exact absurd hid hnot
      | behind hstart =>
        rw [hemit] at hstart
        exact hnext.blocks j c u hstart
  | @once _ _ id b next s t u fragment a hb hid hrecipe _ ihrecipe ihnext =>
    have henter := hs.enter hb hid
    have hinner := ihrecipe henter
    have hemit : p.emit id s = (fragment, t.leave id fragment) := by
      rw [emit_of_not_active hb hs hid, hrecipe.run_eq henter]
    have hnext := ihnext (hs.of_active_eq (congrArg List.tail hrecipe.active))
    refine ⟨?_, fun j c u hstart hc => ?_⟩
    · show ¬(next (p.emit id s).1).Overflows p.emit (p.emit id s).2
      rw [hemit]
      exact hnext.own
    · cases hstart with
      | here =>
        obtain rfl : b = c := Option.some_inj.1 (hb.symm.trans hc)
        exact hinner.own
      | inside hb' _ hstart =>
        obtain rfl := Option.some_inj.1 (hb.symm.trans hb')
        exact hinner.blocks j c u hstart hc
      | behind hstart =>
        rw [hemit] at hstart
        exact hnext.blocks j c u hstart hc

/-! ## Every recipe evaluates -/

/-- The code of a block that exists evaluates, nested in at most the blocks that are not active; with
checks it does if nothing overflows. -/
def Terminates (p : Project) (checks : Bool) : Law := fun id s fragment t =>
  s.Nested p.workspace → p.workspace.block? id ≠ none →
    (checks = true → p.Fits (Recipe.code id) s) →
    p.Evaluates checks (p.workspace.size - s.active.length) (Recipe.code id) s fragment t

/-- A recipe evaluates along its path if the code of the blocks that it asks for does. -/
theorem evaluates_of_steps {active : List BlockId} {es : List Event}
    (hpath : r.Path es a) (hsteps : Emission.Steps (p.Terminates checks) active es s t)
    (hs : s.Nested p.workspace) (hactive : s.active = active)
    (hasked : ∀ x ∈ Event.asked es, p.workspace.block? x ≠ none)
    (hfits : checks = true → p.Fits r s) :
    p.Evaluates checks (p.workspace.size - active.length) r s a t := by
  induction hpath generalizing s with
  | done a =>
    cases hsteps
    exact .done a
  | act answer _ ih =>
    cases hsteps with
    | did action hsteps =>
      exact .act (ih hsteps (hs.of_active_eq rfl) hactive hasked fun h => (hfits h).act)
  | fresh n _ ih =>
    cases hsteps with
    | drew hsteps =>
      exact .fresh (ih hsteps (hs.of_active_eq rfl) hactive hasked fun h => (hfits h).fresh)
  | overflow _ ih =>
    have hchecks : checks = false := Bool.eq_false_iff.2 fun h => (hfits h).own trivial
    exact .overflow hchecks (ih hsteps hs hactive hasked (by rw [hchecks]; nofun))
  | @emit id next fragment es a _ ih =>
    cases hsteps with
    | @made _ t _ _ _ _ _ hlaw hsteps =>
      have hcode := hlaw hs (hasked id List.mem_cons_self) fun h => (hfits h).code
      have hemit : p.emit id s = (fragment, t) := hcode.run_eq hs
      rw [hactive] at hcode
      have hkeep := hcode.active
      have hnext : checks = true → p.Fits (next fragment) t := by
        intro h
        have hnext := (hfits h).next
        rwa [hemit] at hnext
      exact hcode.emit (ih hsteps (hs.of_active_eq hkeep) (hkeep.trans hactive)
        (fun x hx => hasked x (List.mem_cons_of_mem _ hx)) hnext)

/-- A warning evaluates without asking for a block. -/
theorem selfConnected_evaluates (p : Project) (checks : Bool) (depth : Nat) (b : Block)
    (s : Emission) :
    p.Evaluates checks depth (selfConnected b) s (p.run (selfConnected b) s).1
      (p.run (selfConnected b) s).2 :=
  .act (.done _)

theorem emit_terminates (checks : Bool) (id : BlockId) (s : Emission) (hs : s.Nested p.workspace) :
    p.Terminates checks id s (p.emit id s).1 (p.emit id s).2 := by
  refine (emit_induction (p.Terminates checks) ?_ ?_ ?_ id s hs).2
  · exact fun id s hb _ hne => absurd hb hne
  · exact fun id b s hb hid _ _ _ => .again hb hid (selfConnected_evaluates p _ _ b s) (.done _)
  · intro id b s es fragment t hb hid htook hsteps hs _ hfits
    have henter := hs.enter hb hid
    have hasked : ∀ x ∈ Event.asked es, p.workspace.block? x ≠ none := fun x hx =>
      block?_ne_none_of_takesPart (takesPart_of_reads ⟨b, hb, htook.asked.subset hx⟩)
    have hrecipe := evaluates_of_steps htook.path hsteps henter rfl hasked
      fun h => (hfits h).recipe hb hid
    -- the block itself was not active, so one level is left for it
    have hlength : s.active.length + 1 ≤ p.workspace.size := henter.length_le
    obtain ⟨depth, hdepth⟩ : ∃ depth, p.workspace.size - s.active.length = depth + 1 :=
      ⟨p.workspace.size - s.active.length - 1, by omega⟩
    have hinner : p.workspace.size - (id :: s.active).length = depth := by
      rw [List.length_cons]
      omega
    rw [hinner] at hrecipe
    rw [hdepth]
    exact .once hb hid hrecipe (.done _)

theorem mainBody_evaluates (p : Project) (hfits : checks = true → p.Fits p.mainBody .empty) :
    p.Evaluates checks p.workspace.size p.mainBody .empty p.body p.final := by
  obtain ⟨es, hpath, hsteps, -, hasked, -⟩ :=
    @final_steps p (p.Terminates checks) (emit_terminates checks)
  exact evaluates_of_steps hpath hsteps (.empty _) rfl (fun x hx =>
    block?_ne_none_of_takesPart (takesPart_of_mem_mainReads (hasked.subset hx))) hfits

/-! ## Termination -/

/-- On valid links, cycles and shared blocks included, making a program comes to an end in a build that
does not check arithmetic. In one that does it comes to the same end just if every block that is started
computes what fits into 64 bits: it is no branch that counts to the greatest number, and no counting loop
between literals that takes the least step. Then and only then the main function evaluates, with each
request nested in no more running blocks than there are blocks. It evaluates in one way only; following
a stack takes at most one step more than there are blocks; the walk that gives the program order ends;
and whenever the code of a block, of a stack, of a statement socket or of a value socket is made, the
same blocks are active afterwards. -/
theorem compile_terminates (p : Project) (h : p.workspace.IsValid) :
    p.Evaluates false p.workspace.size p.mainBody .empty p.body p.final ∧
      (p.Evaluates true p.workspace.size p.mainBody .empty p.body p.final ↔ p.StaysInRange) ∧
      (∀ checks depth body final, p.Evaluates checks depth p.mainBody .empty body final →
        body = p.body ∧ final = p.final ∧ (checks = true → p.StaysInRange)) ∧
      (∀ head, head < p.workspace.size → ∃ steps, steps ≤ p.workspace.size + 1 ∧
        p.workspace.Walks steps [] (some head) (p.workspace.chainFrom head)) ∧
      p.workspace.Visits p.workspace.topBlocks [] p.workspace.programOrder.reverse ∧
      ∀ checks depth s t,
        (∀ id fragment, p.Evaluates checks depth (Recipe.code id) s fragment t →
          t.active = s.active) ∧
        (∀ head text, p.Evaluates checks depth (Emit.chain p head) s text t →
          t.active = s.active) ∧
        (∀ b socket text, p.Evaluates checks depth (Emit.body p b socket) s text t →
          t.active = s.active) ∧
        (∀ b socket found, p.Evaluates checks depth (Emit.operand p b socket) s found t →
          t.active = s.active) := by
  refine ⟨p.mainBody_evaluates nofun, ⟨?_, ?_⟩, ?_, fun head hhead =>
    Workspace.chainFrom_walks h hhead, p.workspace.programOrder_visits, fun checks depth s t =>
    ⟨fun _ _ heval => heval.active, fun _ _ heval => heval.active, fun _ _ _ heval => heval.active,
      fun _ _ _ heval => heval.active⟩⟩
  · exact fun heval => fits_mainBody_iff.1 (heval.fits (.empty _))
  · exact fun hrange => p.mainBody_evaluates fun _ => fits_mainBody_iff.2 hrange
  · intro checks depth body final heval
    have hrun := heval.run_eq (.empty _)
    refine ⟨(congrArg Prod.fst hrun).symm, (congrArg Prod.snd hrun).symm, ?_⟩
    rintro rfl
    exact fits_mainBody_iff.1 (heval.fits (.empty _))

/-- A sum that is its own first operand and stands in two sockets of a loop, which holds itself and
comes after itself. -/
def knotted : Project where
  workspace :=
    { blocks := #[
        { id := "loop", type := "controls_repeat"
          values := ⟨[("TIMES", 1), ("REPEAT_CONDITION", 1)]⟩, statements := ⟨[("DO", 0)]⟩
          mutation := ⟨[("type", "TIMES")]⟩, next := some 0 },
        { id := "sum", type := "math_arithmetic", values := ⟨[("A", 1), ("B", 0)]⟩ }]
      top := [0]
      index := [0, 1] }

/-- A loop between literals whose step is the least number of 64 bits. -/
def overstepping : Project where
  workspace :=
    { blocks := #[
        { id := "loop", type := "controls_for", values := ⟨[("STEP", 1)]⟩ },
        { id := "step", type := "math_number", fields := ⟨[("NUM", "-9223372036854775808")]⟩ }]
      top := [0]
      index := [0, 1] }

theorem overstepping_starts : ∃ s, overstepping.Starts overstepping.mainBody .empty 0 s ∧
    overstepping.TakesLeastStep
      { id := "loop", type := "controls_for", values := ⟨[("STEP", 1)]⟩ } s := by
  have htop : overstepping.workspace.topBlocks = [0] := by decide +kernel
  have hstack : overstepping.stackCode 0 = Emit.chain overstepping 0 := rfl
  have hmembers : (overstepping.workspace.chainFrom 0).members = [0] := by decide +kernel
  have hempty : ∀ part key text,
      (overstepping.run (Recipe.ensure part key text) .empty).2.active = [] := fun _ _ _ => rfl
  refine ⟨(overstepping.run (Recipe.ensure .includes "simpletools" "#include \"simpletools.h\"")
    .empty).2.enter 0, .bind_right ?_, by decide +kernel⟩
  rw [htop, List.map_cons, hstack, Emit.chain, hmembers]
  refine Starts.bind_left (Starts.bind_left (Starts.bind_left (Starts.bind_left ?_)))
  exact .here rfl (hempty _ _ _ ▸ List.not_mem_nil)

/-- The first program is made in every build. The second one is made without checks, and not at all
with them. -/
theorem compile_terminates_overstepping :
    (knotted.workspace.IsValid ∧
      knotted.Evaluates true 2 knotted.mainBody .empty knotted.body knotted.final) ∧
    overstepping.workspace.IsValid ∧
    overstepping.Evaluates false 2 overstepping.mainBody .empty overstepping.body overstepping.final ∧
    ∀ depth body final, ¬overstepping.Evaluates true depth overstepping.mainBody .empty body final := by
  have hknotted : knotted.workspace.IsValid := by
    refine ⟨fun id => ?_, by decide⟩
    match id with
    | 0 => decide
    | 1 => decide
    | id + 2 => exact nofun
  have hrange : knotted.StaysInRange := by
    have hkinds : ∀ id b, knotted.workspace.block? id = some b →
        Kind.ofName? b.type = some .repeatLoop ∨ Kind.ofName? b.type = some .arithmetic := by
      intro id b hb
      match id with
      | 0 => exact .inl (Option.some_inj.1 hb ▸ rfl)
      | 1 => exact .inr (Option.some_inj.1 hb ▸ rfl)
      | id + 2 => cases hb
    rintro id b s - hb (⟨hkind, -⟩ | ⟨hkind, -⟩) <;> rcases hkinds id b hb with h | h <;>
      cases hkind.symm.trans h
  have hoverstepping : overstepping.workspace.IsValid := by
    refine ⟨fun id => ?_, by decide⟩
    match id with
    | 0 => decide
    | 1 => decide
    | id + 2 => exact nofun
  obtain ⟨-, hchecked, -⟩ := compile_terminates knotted hknotted
  obtain ⟨hunchecked, -, hunique, -⟩ := compile_terminates overstepping hoverstepping
  refine ⟨⟨hknotted, hchecked.2 hrange⟩, hoverstepping, hunchecked, fun depth body final heval => ?_⟩
  obtain ⟨s, hstart, hleast⟩ := overstepping_starts
  exact (hunique true depth body final heval).2.2 rfl 0 _ s hstart rfl (.inr ⟨rfl, hleast⟩)

end Project

end BlockCompiler
