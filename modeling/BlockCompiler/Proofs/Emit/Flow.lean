import BlockCompiler.Proofs.Emit.Socket

set_option autoImplicit false

/-! # Control flow: what the recipes read and do -/

namespace BlockCompiler.Emit

variable (p : Project) (b : Block)

theorem pause_reads : Reads p b .pause (slots b .pause) Text.IsClosed (pause p b) :=
  (value_reads p b .pause "PAUSE_TIME" .anything).bind fun _ =>
    .pure (Text.IsClosed.of_end _ rfl)

/-! ## Branches -/

theorem guarded_reads (n : Nat) :
    Reads p b .branch [.value ("IF" ++ toString n), .stack ("DO" ++ toString n)] Text.IsClosed
      (guarded p b n) := by
  refine (value_reads p b .branch _ .anything).bind fun condition => ?_
  refine (body_reads p b .branch _).bind_given fun stack => .pure fun hstack => ?_
  exact (Text.IsClosed.of_end _ rfl).append hstack

theorem otherwise_reads : Reads p b .branch [.stack "ELSE"] Text.IsClosed (otherwise p b) := by
  unfold otherwise
  split
  · refine (body_reads p b .branch "ELSE").bind_given fun stack => .pure fun hstack => ?_
    have hkeyword : Text.IsClosed "\x7d else \x7b\n" := .inr rfl
    exact hkeyword.append hstack
  · exact Reads.of_nil (.pure Text.isClosed_empty) _

theorem guards_reads :
    Reads p b .branch ((List.range (conditionCount b)).flatMap fun n =>
        [.value ("IF" ++ toString n), .stack ("DO" ++ toString n)]) Text.IsClosed
      (Recipe.concat ((List.range (conditionCount b)).map (guarded p b))) where
  meets := by
    rw [List.flatMap_assoc]
    exact Recipe.Meets.concat fun n _ => (guarded_reads p b n).meets
  isExact := nofun

theorem branch_reads : Reads p b .branch (slots b .branch) Text.IsClosed (branch p b) := by
  refine (Reads.overflowUnless rfl _).bind fun _ => ?_
  refine (guards_reads p b).bind fun branches => ?_
  exact (otherwise_reads p b).bind fun last => .pure (.of_end _ rfl)

/-- The greatest count leaves no condition. -/
theorem conditionCount_eq_zero_iff :
    conditionCount b = 0 ↔ b.mutationCount "elseif" = Block.greatestCount := by
  have hcount := b.mutationCount_le "elseif"
  unfold conditionCount
  constructor
  · intro hzero
    by_contra hne
    rw [Nat.mod_eq_of_lt (by omega)] at hzero
    cases hzero
  · intro hgreatest
    rw [hgreatest, Nat.mod_self]

/-! ## Loops -/

theorem loop_reads (kind : Kind) (head : String) :
    Reads p b kind [.stack "DO"] Text.IsClosed (loop p b head) :=
  (body_reads p b kind "DO").bind fun _ => .pure (Text.IsClosed.of_end _ rfl)

theorem repeatHead_reads :
    Reads p b .repeatLoop [.value "TIMES", .value "REPEAT_CONDITION"] (fun _ => True)
      (repeatHead p b) := by
  have hleft : [Slot.value "TIMES"].Sublist [.value "TIMES", .value "REPEAT_CONDITION"] := by decide
  have hright : [Slot.value "REPEAT_CONDITION"].Sublist
      [.value "TIMES", .value "REPEAT_CONDITION"] := by decide
  unfold repeatHead
  cases RepeatMode.ofBlock b with
  | forever => exact Reads.of_nil (.pure trivial) _
  | times =>
    refine Reads.mono ?_ hleft
    refine (value_reads p b .repeatLoop "TIMES" .relational).bind fun limit => ?_
    exact (Reads.freshName "n").bind fun counter => .pure trivial
  | whileTrue =>
    refine Reads.mono ?_ hright
    exact (value_reads p b .repeatLoop "REPEAT_CONDITION" .anything).bind fun _ => .pure trivial
  | untilTrue =>
    refine Reads.mono ?_ hright
    exact (value_reads p b .repeatLoop "REPEAT_CONDITION" .unaryPrefix).bind fun _ =>
      .pure trivial

theorem repeatLoop_reads :
    Reads p b .repeatLoop (slots b .repeatLoop) Text.IsClosed (repeatLoop p b) :=
  (repeatHead_reads p b).bind fun head => loop_reads p b .repeatLoop head

theorem countingHead_reads (name start finish step : String) :
    Reads p b .countingLoop [] (fun _ => True) (countingHead name start finish step) := by
  unfold countingHead
  split
  · exact (Reads.overflowUnless rfl _).bind fun _ => .pure trivial
  · refine (Reads.ensure (.own _ List.mem_cons_self (by simp [fixedTexts]))).bind fun _ => ?_
    refine (Reads.freshName "from").bind fun first => ?_
    refine (Reads.freshName "to").bind fun last => ?_
    exact (Reads.freshName "by").bind fun stride => .pure trivial

theorem countingLoop_reads :
    Reads p b .countingLoop (slots b .countingLoop) Text.IsClosed (countingLoop p b) := by
  refine (Reads.perform (.setType rfl)).bind fun _ => ?_
  refine (value_reads p b .countingLoop "START" .assignment).bind fun start => ?_
  refine (value_reads p b .countingLoop "END" .assignment).bind fun finish => ?_
  refine (value_reads p b .countingLoop "STEP" .anything).bind fun step => ?_
  refine (countingHead_reads p b _ start finish step).bind fun head => ?_
  exact loop_reads p b .countingLoop head

theorem leaveLoop_reads : Reads p b .leaveLoop [] Text.IsClosed leaveLoop :=
  .pure (.inr rfl)

/-! ## Functions -/

theorem procedure_reads :
    Reads p b .procedure (slots b .procedure) Text.IsClosed (procedure p b) := by
  refine (body_reads p b .procedure "STACK").bind fun stack => ?_
  refine (Reads.ensure (.prototype rfl)).bind fun _ => ?_
  refine (Reads.register (.function _ rfl)).bind fun isNew => ?_
  cases isNew with
  | true => exact .pure Text.isClosed_empty
  | false => exact .warning (.functionTwice _)

theorem procedureCall_reads :
    Reads p b .procedureCall [] Text.IsClosed (procedureCall p b) := by
  unfold procedureCall
  dsimp only
  split
  · exact .pure (Text.IsClosed.of_end _ rfl)
  · exact .warning (.functionMissing _)

theorem newCog_reads : Reads p b .newCog [] Text.IsClosed (newCog p b) := by
  unfold newCog
  split
  · exact .warning .noCall
  · dsimp only
    split
    · exact .pure (Text.IsClosed.of_end _ rfl)
    · exact .warning (.functionMissing _)

end BlockCompiler.Emit
