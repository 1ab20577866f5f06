import BlockCompiler.Proofs.Renumber.Project

set_option autoImplicit false

/-! # Recipes of agreeing projects

In an agreeing project an enabled block's recipe is the same one under other numbers, unless it holds
stacks: where a stack runs into itself, the warnings may differ. A recipe is put together from the
ways to read sockets, so each lemma goes from the parts of a recipe to the whole. -/

namespace BlockCompiler.Emit

open Recipe

variable {σ : Equiv.Perm BlockId} {p p' : Project} (h : p.Agrees σ p')

include h

/-! ## Sockets -/

variable {b b' : Block} (hb : b.Matches σ p p' b')

include hb

theorem operand_renumber (socket : String) :
    operand p' b' socket = (operand p b socket).renumber σ := by
  unfold operand
  rw [hb.value?]
  cases b.values.get? socket with
  | none => rfl
  | some id =>
    simp only [Option.map_some]
    cases hchild : p.workspace.block? id with
    | none => rw [h.of_none hchild]; rfl
    | some child =>
      obtain ⟨child', hchild', hrel⟩ := h.of_some hchild
      simp only [hchild', hrel.disabled]
      split
      · rfl
      · next henabled =>
        simp only [renumber_bind, renumber_code]
        refine congrArg _ (funext fun fragment => ?_)
        cases fragment with
        | expression found => rfl
        | statement text =>
          have hmatch := hrel.content (Bool.eq_false_iff.2 henabled)
          simp only [hmatch.warning, hb.socketDefault]
          split <;> rfl

theorem operandOrDefault_renumber (socket : String) :
    operandOrDefault p' b' socket = (operandOrDefault p b socket).renumber σ := by
  unfold operandOrDefault
  simp only [operand_renumber h hb, hb.socketDefault, renumber_bind]
  refine congrArg _ (funext fun found => ?_)
  cases found <;> rfl

theorem value?_renumber (socket : String) (outer : Precedence) :
    value? p' b' socket outer = (value? p b socket outer).renumber σ := by
  simp only [value?, operand_renumber h hb, renumber_bind, renumber_pure]

theorem value_renumber (socket : String) (outer : Precedence) :
    value p' b' socket outer = (value p b socket outer).renumber σ := by
  simp only [value, value?_renumber h hb, hb.socketDefault, renumber_bind, renumber_pure]

theorem clampedValue_renumber (socket : String) (low high : Int) (outer : Precedence) :
    clampedValue p' b' socket low high outer =
      (clampedValue p b socket low high outer).renumber σ := by
  simp only [clampedValue, operandOrDefault_renumber h hb, renumber_bind]
  refine congrArg _ (funext fun found => ?_)
  split <;> rfl

theorem pin_renumber (name : String) : pin p' b' name = (pin p b name).renumber σ := by
  unfold pin
  rw [hb.pinSource]
  split
  · exact value_renumber h hb name .anything
  · rw [hb.field]
    rfl

/-! ## Initializers -/

theorem duplicateWarning?_renumber (id : BlockId) (kind : Kind) (label : String) :
    duplicateWarning? p' (σ id) b' kind label =
      (duplicateWarning? p id b kind label).renumber σ := by
  unfold duplicateWarning?
  rw [h.inOrder, List.head?_map]
  cases (p.inOrder kind).head? with
  | none => rfl
  | some first =>
    have hsame : (σ first == σ id) = (first == id) := by
      rw [Bool.eq_iff_iff, beq_iff_eq, beq_iff_eq, σ.injective.eq_iff]
    simp only [Option.map_some, hsame, hb.warning]
    split <;> rfl

theorem initializer_renumber (id : BlockId) (kind : Kind) (label : String)
    {setUp setUp' : Recipe String} (hsetUp : setUp' = setUp.renumber σ) :
    initializer p' (σ id) b' kind label setUp' =
      (initializer p id b kind label setUp).renumber σ := by
  unfold initializer
  simp only [duplicateWarning?_renumber h hb, renumber_bind]
  refine congrArg _ (funext fun line? => ?_)
  cases line? with
  | some line => rfl
  | none => exact hsetUp

/-! ## Functions -/

omit h in
theorem calledName_eq : calledName p' b' = calledName p b := by
  rw [calledName, calledName, hb.mutation?, hb.field]

theorem procedureCall_renumber : procedureCall p' b' = (procedureCall p b).renumber σ := by
  simp only [procedureCall, calledName_eq hb, h.isDefined, undefinedWarning, hb.warning]
  split <;> rfl

theorem cogCall?_rel : Option.Rel (Block.Matches σ p p') (cogCall? p b) (cogCall? p' b') := by
  unfold cogCall?
  rw [hb.statement?]
  cases b.statements.get? "METHOD" with
  | none => exact .none
  | some id =>
    rw [Option.map_some, Option.bind_some, Option.bind_some]
    cases hcall : p.workspace.block? id with
    | none =>
      rw [h.of_none hcall]
      exact .none
    | some call =>
      obtain ⟨call', hcall', hrel⟩ := h.of_some hcall
      rw [hcall', Option.filter_some, Option.filter_some, hrel.disabled]
      cases hdisabled : call.disabled with
      | true =>
        simp only [Bool.not_true, Bool.and_false, Bool.false_eq_true, if_false]
        exact .none
      | false =>
        have hmatch := hrel.content hdisabled
        rw [hmatch.type]
        split
        · exact .some hmatch
        · exact .none

theorem newCog_renumber : newCog p' b' = (newCog p b).renumber σ := by
  have hrel := cogCall?_rel h hb
  unfold newCog
  cases hcall : cogCall? p b with
  | none =>
    rw [eq_none_of_rel hrel hcall]
    exact hb.warning _
  | some call =>
    obtain ⟨call', hcall', hmatch⟩ := exists_of_rel_some hrel hcall
    simp only [hcall', calledName_eq hmatch, h.isDefined, hb.field, undefinedWarning, hb.warning]
    split <;> rfl

/-! ## Heads of loops -/

theorem pause_renumber : pause p' b' = (pause p b).renumber σ := by
  simp only [pause, value_renumber h hb, renumber_bind, renumber_pure]

theorem repeatHead_renumber : repeatHead p' b' = (repeatHead p b).renumber σ := by
  unfold repeatHead
  rw [hb.repeatMode]
  cases RepeatMode.ofBlock b with
  | forever => rfl
  | times => simp only [value_renumber h hb, renumber_bind, renumber_freshName, renumber_pure]
  | whileTrue => simp only [value_renumber h hb, renumber_bind, renumber_pure]
  | untilTrue => simp only [value_renumber h hb, renumber_bind, renumber_pure]

omit h hb in
theorem countingHead_renumber (σ : BlockId → BlockId) (name start finish step : String) :
    (countingHead name start finish step).renumber σ = countingHead name start finish step := by
  unfold countingHead
  split
  · rw [renumber_bind, renumber_overflowUnless]
    rfl
  · rfl

omit hb

/-! ## Stacks -/

theorem member_renumber (id : BlockId) : member p' (σ id) = (member p id).renumber σ := by
  unfold member
  cases hb : p.workspace.block? id with
  | none => rw [h.of_none hb]; rfl
  | some b =>
    obtain ⟨b', hb', hrel⟩ := h.of_some hb
    simp only [hb', hrel.disabled]
    split
    · rfl
    · simp only [renumber_bind, renumber_code]
      refine congrArg _ (funext fun fragment => ?_)
      cases fragment <;> rfl

variable {tells : Diagnostic → Diagnostic → Prop} (hcyclic : p.TellsCycles σ p' tells)

include hcyclic

theorem chainEnd_mirrors (head : BlockId) :
    Mirrors σ tells (chainEnd p (p.workspace.chainFrom head).repeated)
      (chainEnd p' ((p.workspace.chainFrom head).repeated.map σ)) := by
  unfold chainEnd
  cases hrepeated : (p.workspace.chainFrom head).repeated with
  | none => exact .pure ""
  | some id =>
    rw [Option.map_some, Option.bind_some, Option.bind_some]
    cases hb : p.workspace.block? id with
    | none =>
      rw [h.of_none hb]
      exact .pure ""
    | some b =>
      obtain ⟨b', hb', -⟩ := h.of_some hb
      rw [hb']
      exact .warning (hcyclic hrepeated hb hb')

theorem chain_mirrors (head : BlockId) : Mirrors σ tells (chain p head) (chain p' (σ head)) := by
  unfold chain
  rw [h.chainFrom]
  refine .bind (.concat ?_) fun _ => (chainEnd_mirrors h hcyclic head).bind fun _ => .pure _
  rw [List.map_map, List.forall₂_map_left_iff, List.forall₂_map_right_iff]
  exact List.forall₂_same.2 fun id _ => .of_eq (member_renumber h id)

include hb

theorem body_mirrors (socket : String) : Mirrors σ tells (body p b socket) (body p' b' socket) := by
  unfold body
  rw [hb.statement?]
  cases b.statements.get? socket with
  | none => exact .pure ""
  | some head => exact (chain_mirrors h hcyclic head).bind fun _ => .pure _

/-! ## Control flow -/

theorem guarded_mirrors (n : Nat) : Mirrors σ tells (guarded p b n) (guarded p' b' n) :=
  .bind (.of_eq (value_renumber h hb _ _)) fun _ =>
    (body_mirrors h hb hcyclic _).bind fun _ => .pure _

theorem otherwise_mirrors : Mirrors σ tells (otherwise p b) (otherwise p' b') := by
  have helse : hasElse b' = hasElse b := by
    simp only [hasElse, hb.mutationCount, Ledger.contains, hb.statement?, Option.isSome_map]
  unfold otherwise
  rw [helse]
  split
  · exact (body_mirrors h hb hcyclic _).bind fun _ => .pure _
  · exact .pure ""

theorem branch_mirrors : Mirrors σ tells (branch p b) (branch p' b') := by
  unfold branch conditionCount
  rw [hb.mutationCount]
  refine .bind (.of_eq (renumber_overflowUnless σ _).symm) fun _ => .bind (.concat ?_) fun _ =>
    (otherwise_mirrors h hb hcyclic).bind fun _ => .pure _
  rw [List.forall₂_map_left_iff, List.forall₂_map_right_iff]
  exact List.forall₂_same.2 fun n _ => guarded_mirrors h hb hcyclic n

theorem loop_mirrors (head : String) : Mirrors σ tells (loop p b head) (loop p' b' head) :=
  (body_mirrors h hb hcyclic _).bind fun _ => .pure _

theorem repeatLoop_mirrors : Mirrors σ tells (repeatLoop p b) (repeatLoop p' b') :=
  .bind (.of_eq (repeatHead_renumber h hb)) (loop_mirrors h hb hcyclic)

theorem countingLoop_mirrors : Mirrors σ tells (countingLoop p b) (countingLoop p' b') := by
  have hvalue (socket : String) (outer : Precedence) :
      Mirrors σ tells (value p b socket outer) (value p' b' socket outer) :=
    .of_eq (value_renumber h hb socket outer)
  unfold countingLoop
  rw [hb.field]
  refine .bind (.of_eq rfl) fun _ => (hvalue _ _).bind fun start => (hvalue _ _).bind fun finish =>
    (hvalue _ _).bind fun step => ?_
  exact .bind (.of_eq (countingHead_renumber σ _ start finish step).symm)
    (loop_mirrors h hb hcyclic)

/-- A function that was defined before is told of by the same warning. -/
theorem procedure_mirrors : Mirrors σ tells (procedure p b) (procedure p' b') := by
  unfold procedure
  simp only [hb.field, hb.warning]
  refine (body_mirrors h hb hcyclic _).bind fun stack => .bind (.of_eq rfl) fun _ =>
    .bind (.of_eq rfl) fun isNew => .of_eq ?_
  split <;> rfl

end BlockCompiler.Emit
