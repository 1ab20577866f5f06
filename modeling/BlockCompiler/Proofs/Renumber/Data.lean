import BlockCompiler.Proofs.Renumber.Flow

set_option autoImplicit false

/-! # Values and data of corresponding projects -/

namespace BlockCompiler.Emit

open Recipe

variable {σ : Equiv.Perm BlockId} {p p' : Project} (h : p.Agrees σ p') {b b' : Block}
  (hb : b.Matches σ p p' b')

/-! ## Constants and operators -/

include hb in
theorem number_renumber : number p' b' = (number p b).renumber σ := by
  rw [number, hb.field]
  rfl

include hb in
theorem boolean_renumber : boolean p' b' = (boolean p b).renumber σ := by
  rw [boolean, hb.field]
  rfl

include hb in
theorem text_renumber : text p' b' = (text p b).renumber σ := by
  rw [text, hb.field]
  rfl

include h hb

theorem binary_renumber (sign : String) (order : Precedence) :
    binary p' b' sign order = (binary p b sign order).renumber σ := by
  simp only [binary, value_renumber h hb, renumber_bind, renumber_pure]

theorem power_renumber : power p' b' = (power p b).renumber σ := by
  simp only [power, value_renumber h hb, renumber_bind, renumber_pure]

theorem arithmetic_renumber : arithmetic p' b' = (arithmetic p b).renumber σ := by
  unfold arithmetic
  rw [hb.field]
  split
  case h_5 => exact power_renumber h hb
  all_goals exact binary_renumber h hb _ _

theorem limit_renumber : limit p' b' = (limit p b).renumber σ := by
  simp only [limit, hb.field, value_renumber h hb, renumber_bind, renumber_pure]

theorem random_renumber : random p' b' = (random p b).renumber σ := by
  simp only [random, value_renumber h hb, renumber_bind, renumber_ensure, renumber_pure]

theorem compare_renumber : compare p' b' = (compare p b).renumber σ := by
  unfold compare
  rw [hb.field]
  split <;> exact binary_renumber h hb _ _

theorem logic_renumber : logic p' b' = (logic p b).renumber σ := by
  unfold logic
  rw [hb.field]
  split <;> exact binary_renumber h hb _ _

theorem negate_renumber : negate p' b' = (negate p b).renumber σ := by
  simp only [negate, value_renumber h hb, renumber_bind, renumber_pure]

/-! ## Variables -/

omit h in
theorem readVariable_renumber : readVariable p' b' = (readVariable p b).renumber σ := by
  rw [readVariable, hb.variableName]
  rfl

omit h in
theorem stepVariable_renumber : stepVariable p' b' = (stepVariable p b).renumber σ := by
  rw [stepVariable, hb.field, hb.variableName]
  rfl

omit hb in
theorem assignedType_renumber (name text : String) :
    assignedType p' name text = (assignedType p name text).renumber σ := by
  unfold assignedType
  rw [h.isBuffer]
  split <;> rfl

omit h hb in
theorem reserveLiteral_renumber (σ : BlockId → BlockId) (name text : String) :
    (reserveLiteral name text).renumber σ = reserveLiteral name text := by
  unfold reserveLiteral
  split <;> rfl

theorem assign_renumber : assign p' b' = (assign p b).renumber σ := by
  simp only [assign, hb.variableName, value_renumber h hb, assignedType_renumber h, renumber_bind]
  refine congrArg _ (funext fun text => congrArg _ (funext fun type => ?_))
  split
  · simp only [includeStrings, renumber_bind, renumber_ensure, reserveLiteral_renumber,
      renumber_pure]
  · rfl

/-! ## Arrays -/

omit hb in
theorem initializedSize?_eq (name : String) :
    initializedSize? p' name = initializedSize? p name :=
  h.find?_blocksInOrder .arrayInit (fun hb => by rw [hb.fieldOr]) fun hb => by rw [hb.fieldOr]

theorem arrayIndex_renumber (size : Int) :
    arrayIndex p' b' size = (arrayIndex p b size).renumber σ := by
  simp only [arrayIndex, value_renumber h hb, renumber_bind]
  refine congrArg _ (funext fun text => ?_)
  split <;> rfl

theorem arrayInit_renumber : arrayInit p' b' = (arrayInit p b).renumber σ := by
  simp only [arrayInit, hb.variableName, hb.field, initializedSize?_eq h, hb.warning, renumber_bind,
    renumber_register]
  refine congrArg _ (funext fun isNew => ?_)
  split <;> rfl

theorem arrayGet_renumber : arrayGet p' b' = (arrayGet p b).renumber σ := by
  simp only [arrayGet, hb.variableName, initializedSize?_eq h, uninitialized, hb.error]
  split
  · rfl
  · simp only [arrayIndex_renumber h hb, renumber_bind, renumber_pure]

theorem arraySet_renumber : arraySet p' b' = (arraySet p b).renumber σ := by
  simp only [arraySet, hb.variableName, initializedSize?_eq h, uninitialized, hb.error]
  split
  · rfl
  · simp only [arrayIndex_renumber h hb, value_renumber h hb, renumber_bind, renumber_pure]

theorem arrayFill_renumber : arrayFill p' b' = (arrayFill p b).renumber σ := by
  simp only [arrayFill, hb.variableName, hb.field, initializedSize?_eq h, uninitialized, hb.error,
    overflowWarning, hb.warning]
  split
  · rfl
  · split
    · rfl
    · simp only [includeStrings, renumber_bind, renumber_ensure, renumber_freshName, renumber_pure]
      split <;> rfl

theorem arrayClear_renumber : arrayClear p' b' = (arrayClear p b).renumber σ := by
  simp only [arrayClear, hb.variableName, initializedSize?_eq h, uninitialized, hb.error]
  split <;> rfl

/-! ## Texts -/

omit h in
theorem comment_renumber : comment p' b' = (comment p b).renumber σ := by
  rw [comment, hb.field]
  rfl

omit h in
theorem customCode_renumber : customCode p' b' = (customCode p b).renumber σ := by
  simp only [customCode, hb.field, hb.id]
  split <;> rfl

theorem print_renumber : print p' b' = (print p b).renumber σ := by
  simp only [print, lineEnd, hb.field, value_renumber h hb, renumber_bind]
  refine congrArg _ (funext fun message => ?_)
  split <;> rfl

theorem printValue_renumber : printValue p' b' = (printValue p b).renumber σ := by
  simp only [printValue, lineEnd, hb.field, value_renumber h hb, renumber_bind, renumber_pure]

/-! ## Memory -/

theorem memoryAddress_renumber : memoryAddress p' b' = (memoryAddress p b).renumber σ := by
  simp only [memoryAddress, value_renumber h hb, renumber_bind, renumber_ensure, renumber_pure]

omit h hb in
theorem storedLength_renumber (σ : BlockId → BlockId) (text : String) :
    (storedLength text).renumber σ = storedLength text := by
  unfold storedLength
  split <;> rfl

theorem writeTo_renumber (address : String) (stored : Stored) :
    writeTo p' b' address stored = (writeTo p b address stored).renumber σ := by
  cases stored with
  | number => simp only [writeTo, value_renumber h hb, renumber_bind, renumber_pure]
  | byte => simp only [writeTo, operandOrDefault_renumber h hb, renumber_bind, renumber_pure]
  | text =>
    simp only [writeTo, value?_renumber h hb, storedLength_renumber, renumber_bind, renumber_pure]

theorem memoryWrite_renumber : memoryWrite p' b' = (memoryWrite p b).renumber σ := by
  simp only [memoryWrite, memoryAddress_renumber h hb, writeTo_renumber h hb, hb.field,
    renumber_bind]

theorem memoryRead_renumber : memoryRead p' b' = (memoryRead p b).renumber σ := by
  simp only [memoryRead, memoryAddress_renumber h hb, hb.field, hb.variableName, renumber_bind]
  refine congrArg _ (funext fun address => ?_)
  cases Stored.ofField (p.field b "TYPE") <;> rfl

end BlockCompiler.Emit
