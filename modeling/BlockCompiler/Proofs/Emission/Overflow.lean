import BlockCompiler.Proofs.Emission.Program

set_option autoImplicit false

/-! # Overflows of programs

Two kinds of blocks compute with numbers that the user wrote, and each overflows at a single one: a
branch at the greatest count of conditions, and a counting loop between literals at the least step. All
other recipes are exact. So whether a program is made within the words of 64 bits is told by the states
in which the recipes of these blocks are started. -/

namespace BlockCompiler

namespace Emit

open Recipe

variable (p : Project) (b : Block) {code : BlockId → Emission → Fragment × Emission} {s : Emission}

/-! ## Branches -/

theorem guarded_isExact (n : Nat) : (guarded p b n).IsExact :=
  (value_isExact p b _ _).bind fun _ => (body_isExact p b _).bind fun _ => .pure _

theorem otherwise_isExact : (otherwise p b).IsExact := by
  unfold otherwise
  split
  · exact (body_isExact p b _).bind fun _ => .pure _
  · exact .pure ""

theorem branch_overflows_iff :
    (branch p b).Overflows code s ↔ b.mutationCount "elseif" = Block.greatestCount := by
  have hcount := b.mutationCount_le "elseif"
  have hguards : (Recipe.concat ((List.range (conditionCount b)).map (guarded p b))).IsExact := by
    refine .concat fun r hr => ?_
    obtain ⟨n, -, rfl⟩ := List.mem_map.1 hr
    exact guarded_isExact p b n
  have hrest := hguards.bind fun branches => (otherwise_isExact p b).bind fun last =>
    .pure (branches ++ last ++ "\x7d\n")
  unfold branch
  rw [overflows_bind, overflows_overflowUnless, or_iff_left (hrest.not_overflows _),
    decide_eq_false_iff_not]
  omega

/-! ## Counting loops -/

theorem temporaryHead_isExact (name start finish step : String) :
    (temporaryHead name start finish step).IsExact :=
  ((IsExact.perform _).bind fun _ => .pure _).bind fun _ => (IsExact.freshName "from").bind fun _ =>
    (IsExact.freshName "to").bind fun _ => (IsExact.freshName "by").bind fun _ => .pure _

theorem countingHead_overflows_iff (name start finish step : String) :
    (countingHead name start finish step).Overflows code s ↔
      Text.intLiteral? start ≠ none ∧ Text.intLiteral? finish ≠ none ∧
        Text.intLiteral? step = some Text.least := by
  unfold countingHead
  split
  · next first last stride hstart hfinish hstep =>
    rw [overflows_bind, overflows_overflowUnless, hstart, hfinish, hstep, bne_eq_false_iff_eq,
      or_iff_left (IsExact.not_overflows (.pure _) _), Option.some_inj]
    exact (and_iff_right nofun).symm.trans (and_congr_right fun _ => (and_iff_right nofun).symm)
  · next hcomputed =>
    refine iff_of_false ((temporaryHead_isExact name start finish step).not_overflows s) ?_
    rintro ⟨hstart, hfinish, hstep⟩
    obtain ⟨first, hfirst⟩ := Option.ne_none_iff_exists'.1 hstart
    obtain ⟨last, hlast⟩ := Option.ne_none_iff_exists'.1 hfinish
    exact hcomputed first last Text.least hfirst hlast hstep

end Emit

namespace Project

open Recipe

/-- The texts of a counting loop's sockets, made from a state, are literals with the least step. -/
def TakesLeastStep (p : Project) (b : Block) (s : Emission) : Prop :=
  let start := p.run (Emit.value p b "START" .assignment)
    (p.run (Recipe.perform (.setType (Identifier.ofName (p.field b "VAR")) .int)) s).2
  let finish := p.run (Emit.value p b "END" .assignment) start.2
  let step := p.run (Emit.value p b "STEP" .anything) finish.2
  Text.intLiteral? start.1 ≠ none ∧ Text.intLiteral? finish.1 ≠ none ∧
    Text.intLiteral? step.1 = some Text.least

instance (p : Project) (b : Block) (s : Emission) : Decidable (p.TakesLeastStep b s) :=
  inferInstanceAs (Decidable (_ ∧ _ ∧ _))

/-- A block whose recipe is started in a state computes what does not fit into 64 bits. -/
def Oversteps (p : Project) (b : Block) (s : Emission) : Prop :=
  (Kind.ofName? b.type = some .branch ∧ b.mutationCount "elseif" = Block.greatestCount) ∨
    (Kind.ofName? b.type = some .countingLoop ∧ p.TakesLeastStep b s)

variable {p : Project} {b : Block} {s t : Emission} {α β : Type}

theorem countingLoop_overflows_iff :
    (Emit.countingLoop p b).Overflows p.emit s ↔ p.TakesLeastStep b s := by
  have hloop : ∀ head, (Emit.loop p b head).IsExact := fun head =>
    (Emit.body_isExact p b "DO").bind fun _ => .pure _
  unfold Emit.countingLoop
  rw [(IsExact.perform _).overflows_bind, (Emit.value_isExact p b _ _).overflows_bind,
    (Emit.value_isExact p b _ _).overflows_bind, (Emit.value_isExact p b _ _).overflows_bind,
    overflows_bind, or_iff_left ((hloop _).not_overflows _)]
  exact Emit.countingHead_overflows_iff _ _ _ _

theorem statement_overflows_iff {code : Recipe String} :
    (Emitter.statement code).fragment.Overflows p.emit s ↔ code.Overflows p.emit s := by
  rw [Emitter.fragment, overflows_bind]
  exact or_iff_left (IsExact.not_overflows (.pure _) _)

/-- The recipe of a block overflows just if the block computes what does not fit. -/
theorem recipe_overflows_iff (id : BlockId) :
    (Emit.recipe p id b).Overflows p.emit s ↔ p.Oversteps b s := by
  unfold Oversteps
  cases hkind : Kind.ofName? b.type with
  | none =>
    rw [Emit.recipe_of_unknown hkind, statement_overflows_iff]
    have hexact : (Emit.unknownType b).IsExact := (IsExact.perform _).bind fun _ => .pure _
    exact iff_of_false (hexact.not_overflows s) (by simp)
  | some kind =>
    rw [Emit.recipe_of_kind hkind]
    cases kind with
    | branch => simp [Emit.emitter, statement_overflows_iff, Emit.branch_overflows_iff]
    | countingLoop => simp [Emit.emitter, statement_overflows_iff, countingLoop_overflows_iff]
    | _ =>
      refine iff_of_false (IsExact.not_overflows ?_ s) (by simp)
      exact (Emit.emitter_reads p b id _).fragment.isExact rfl

/-! ## Starting recipes -/

/-- While a recipe is carried out from a state, the recipe of a block is started in another state. -/
inductive Starts (p : Project) : {α : Type} → Recipe α → Emission → BlockId → Emission → Prop
  | act {α : Type} {action : Action} {next : action.Answer → Recipe α} {s t : Emission}
    {id : BlockId} :
    Starts p (next (s.perform action).1) (s.perform action).2 id t → Starts p (.act action next) s id t
  | fresh {α : Type} {next : Nat → Recipe α} {s t : Emission} {id : BlockId} :
    Starts p (next s.names) { s with names := s.names + 1 } id t → Starts p (.fresh next) s id t
  | overflow {α : Type} {next : Recipe α} {s t : Emission} {id : BlockId} :
    Starts p next s id t → Starts p (.overflow next) s id t
  | here {α : Type} {id : BlockId} {b : Block} {next : Fragment → Recipe α} {s : Emission} :
    p.workspace.block? id = some b → id ∉ s.active → Starts p (.emit id next) s id (s.enter id)
  | inside {α : Type} {id inner : BlockId} {b : Block} {next : Fragment → Recipe α}
    {s t : Emission} :
    p.workspace.block? id = some b → id ∉ s.active →
    Starts p (Emit.recipe p id b) (s.enter id) inner t → Starts p (.emit id next) s inner t
  | behind {α : Type} {id other : BlockId} {next : Fragment → Recipe α} {s t : Emission} :
    Starts p (next (p.emit id s).1) (p.emit id s).2 other t → Starts p (.emit id next) s other t

variable {id : BlockId}

theorem Starts.bind_left {r : Recipe α} {f : α → Recipe β} (h : p.Starts r s id t) :
    p.Starts (r >>= f) s id t := by
  show p.Starts (r.bind f) s id t
  induction h with
  | act _ ih => exact .act ih
  | fresh _ ih => exact .fresh ih
  | overflow _ ih => exact .overflow ih
  | here hb hid => exact .here hb hid
  | inside hb hid h => exact .inside hb hid h
  | behind _ ih => exact .behind ih

theorem Starts.bind_right {r : Recipe α} {f : α → Recipe β}
    (h : p.Starts (f (p.run r s).1) (p.run r s).2 id t) : p.Starts (r >>= f) s id t := by
  show p.Starts (r.bind f) s id t
  induction r generalizing s with
  | done a => exact h
  | act action next ih => exact .act (ih _ h)
  | emit j next ih => exact .behind (ih _ h)
  | fresh next ih => exact .fresh (ih _ h)
  | overflow next ih => exact .overflow (ih h)

/-! ## Staying within the words -/

/-- Nothing overflows while a recipe is carried out, in its own steps or in those of blocks. -/
structure Fits (p : Project) (r : Recipe α) (s : Emission) : Prop where
  own : ¬r.Overflows p.emit s
  blocks : ∀ id b t, p.Starts r s id t → p.workspace.block? id = some b →
    ¬(Emit.recipe p id b).Overflows p.emit t

theorem Fits.act {action : Action} {next : action.Answer → Recipe α}
    (h : p.Fits (.act action next) s) : p.Fits (next (s.perform action).1) (s.perform action).2 :=
  ⟨h.own, fun id b t hstart => h.blocks id b t (.act hstart)⟩

theorem Fits.fresh {next : Nat → Recipe α} (h : p.Fits (.fresh next) s) :
    p.Fits (next s.names) { s with names := s.names + 1 } :=
  ⟨h.own, fun id b t hstart => h.blocks id b t (.fresh hstart)⟩

theorem Fits.code {next : Fragment → Recipe α} (h : p.Fits (.emit id next) s) :
    p.Fits (Recipe.code id) s where
  own := not_false
  blocks j b t hstart := by
    refine h.blocks j b t ?_
    cases hstart with
    | here hb hid => exact .here hb hid
    | inside hb hid hstart => exact .inside hb hid hstart
    | behind hstart => cases hstart

theorem Fits.recipe (h : p.Fits (Recipe.code id) s) (hb : p.workspace.block? id = some b)
    (hid : id ∉ s.active) : p.Fits (Emit.recipe p id b) (s.enter id) :=
  ⟨h.blocks id b _ (.here hb hid) hb, fun j c t hstart => h.blocks j c t (.inside hb hid hstart)⟩

theorem Fits.next {next : Fragment → Recipe α} (h : p.Fits (.emit id next) s) :
    p.Fits (next (p.emit id s).1) (p.emit id s).2 :=
  ⟨h.own, fun j b t hstart => h.blocks j b t (.behind hstart)⟩

/-- What no block of the program computes leaves 64 bits. -/
def StaysInRange (p : Project) : Prop :=
  ∀ id b s, p.Starts p.mainBody .empty id s → p.workspace.block? id = some b → ¬p.Oversteps b s

theorem mainBody_isExact (p : Project) : p.mainBody.IsExact := by
  refine IsExact.bind ((IsExact.perform _).bind fun _ => .pure _) fun _ => .concat fun r hr => ?_
  obtain ⟨id, -, rfl⟩ := List.mem_map.1 hr
  have hdefinition : (definitionCode id).IsExact := by
    refine (IsExact.code id).bind fun fragment => ?_
    cases fragment with
    | statement text => exact .pure text
    | expression found => exact .pure ""
  unfold stackCode
  split
  · exact .pure ""
  · split
    · split
      · exact Emit.chain_isExact p id
      · exact hdefinition
    · exact .pure ""
    · exact Emit.chain_isExact p id

theorem fits_mainBody_iff : p.Fits p.mainBody .empty ↔ p.StaysInRange := by
  constructor
  · exact fun h id b s hstart hb => mt (recipe_overflows_iff id).2 (h.blocks id b s hstart hb)
  · exact fun h => ⟨p.mainBody_isExact.not_overflows _, fun id b s hstart hb =>
      mt (recipe_overflows_iff id).1 (h id b s hstart hb)⟩

end Project

end BlockCompiler
