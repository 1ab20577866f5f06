import BlockCompiler.Proofs.Renumber.Data
import BlockCompiler.Proofs.Renumber.Device

set_option autoImplicit false

/-! # The catalog for agreeing projects

One statement for the recipes of all kinds, and for those of an unknown type as well. Between
corresponding projects it is an equation. -/

namespace BlockCompiler

/-- The recipe of one emitter mirrors the recipe of the other. -/
inductive Emitter.Mirrors (σ : BlockId → BlockId) (tells : Diagnostic → Diagnostic → Prop) :
    Emitter → Emitter → Prop
  | statement {code code' : Recipe String} :
    code.Mirrors σ tells code' → Mirrors σ tells (.statement code) (.statement code')
  | value {code code' : Recipe Operand} :
    code.Mirrors σ tells code' → Mirrors σ tells (.value code) (.value code')

theorem Emitter.Mirrors.fragment {σ : BlockId → BlockId} {tells : Diagnostic → Diagnostic → Prop}
    {e e' : Emitter} (h : e.Mirrors σ tells e') : e.fragment.Mirrors σ tells e'.fragment := by
  cases h with
  | statement hcode => exact hcode.bind fun _ => .pure _
  | value hcode => exact hcode.bind fun _ => .pure _

/-- Whether the code of a kind of block depends on the board. -/
def Kind.readsBoard : Kind → Bool
  | .fileOpen | .fileRead | .fileWrite | .fileClose | .wavPlay => true
  | .scribblerDrive | .scribblerStop | .scribblerLed | .scribblerPlay | .scribblerLine
  | .scribblerObstacle => true
  | _ => false

namespace Emit

section Agrees

variable {σ : Equiv.Perm BlockId} {p p' : Project} (h : p.Agrees σ p')
  {tells : Diagnostic → Diagnostic → Prop} (hcyclic : p.TellsCycles σ p' tells) {b b' : Block}
  (hb : b.Matches σ p p' b')

include h hcyclic hb

/-- In an agreeing project the recipe of every kind of block mirrors the block's own. -/
theorem emitter_mirrors (id : BlockId) (kind : Kind)
    (hboard : kind.readsBoard = true → p'.board = p.board) :
    (emitter p id b kind).Mirrors σ tells (emitter p' (σ id) b' kind) := by
  cases kind with
  | comment => exact .statement (.of_eq (comment_renumber hb))
  | customCode => exact .statement (.of_eq (customCode_renumber hb))
  | pause => exact .statement (.of_eq (pause_renumber h hb))
  | systemCounter => exact .value (.of_eq rfl)
  | branch => exact .statement (branch_mirrors h hb hcyclic)
  | repeatLoop => exact .statement (repeatLoop_mirrors h hb hcyclic)
  | countingLoop => exact .statement (countingLoop_mirrors h hb hcyclic)
  | leaveLoop => exact .statement (.of_eq rfl)
  | procedure => exact .statement (procedure_mirrors h hb hcyclic)
  | procedureCall => exact .statement (.of_eq (procedureCall_renumber h hb))
  | newCog => exact .statement (.of_eq (newCog_renumber h hb))
  | number => exact .value (.of_eq (number_renumber hb))
  | arithmetic => exact .value (.of_eq (arithmetic_renumber h hb))
  | limit => exact .value (.of_eq (limit_renumber h hb))
  | stepVariable => exact .statement (.of_eq (stepVariable_renumber hb))
  | random => exact .value (.of_eq (random_renumber h hb))
  | boolean => exact .value (.of_eq (boolean_renumber hb))
  | compare => exact .value (.of_eq (compare_renumber h hb))
  | logic => exact .value (.of_eq (logic_renumber h hb))
  | negate => exact .value (.of_eq (negate_renumber h hb))
  | text => exact .value (.of_eq (text_renumber hb))
  | readVariable => exact .value (.of_eq (readVariable_renumber hb))
  | assign => exact .statement (.of_eq (assign_renumber h hb))
  | arrayInit => exact .statement (.of_eq (arrayInit_renumber h hb))
  | arrayGet => exact .value (.of_eq (arrayGet_renumber h hb))
  | arraySet => exact .statement (.of_eq (arraySet_renumber h hb))
  | arrayFill => exact .statement (.of_eq (arrayFill_renumber h hb))
  | arrayClear => exact .statement (.of_eq (arrayClear_renumber h hb))
  | print => exact .statement (.of_eq (print_renumber h hb))
  | printValue => exact .statement (.of_eq (printValue_renumber h hb))
  | printNewline => exact .statement (.of_eq rfl)
  | makePin => exact .statement (.of_eq (makePin_renumber h hb))
  | makePinInput => exact .statement (.of_eq (makePin_renumber h hb))
  | checkPin => exact .value (.of_eq (checkPin_renumber h hb))
  | checkPinInput => exact .value (.of_eq (checkPin_renumber h hb))
  | setPins => exact .statement (.of_eq (setPins_renumber hb))
  | pwmStart => exact .statement (.of_eq (pwmStart_renumber h hb id))
  | pwmSet => exact .statement (.of_eq (pwmSet_renumber h hb))
  | pwmStop => exact .statement (.of_eq rfl)
  | frequencyOut => exact .statement (.of_eq (frequencyOut_renumber h hb))
  | soundInit => exact .statement (.of_eq (soundInit_renumber h hb id))
  | soundPlay => exact .statement (.of_eq (soundPlay_renumber h hb))
  | wavPlay => exact .statement (.of_eq (wavPlay_renumber h hb (hboard rfl)))
  | wavVolume => exact .statement (.of_eq (wavVolume_renumber h hb))
  | wavStop => exact .statement (.of_eq rfl)
  | cardInit => exact .statement (.of_eq (cardInit_renumber h hb id))
  | fileOpen => exact .statement (.of_eq (fileOpen_renumber h hb (hboard rfl)))
  | fileRead => exact .statement (.of_eq (fileRead_renumber h hb (hboard rfl)))
  | fileWrite => exact .statement (.of_eq (fileWrite_renumber h hb (hboard rfl)))
  | fileClose => exact .statement (.of_eq (fileClose_renumber h hb (hboard rfl)))
  | servoMove => exact .statement (.of_eq (servoMove_renumber h hb))
  | servoSpeed => exact .statement (.of_eq (servoSpeed_renumber h hb))
  | servoRamp => exact .statement (.of_eq (servoRamp_renumber h hb))
  | memoryWrite => exact .statement (.of_eq (memoryWrite_renumber h hb))
  | memoryRead => exact .statement (.of_eq (memoryRead_renumber h hb))
  | driveInit => exact .statement (.of_eq (driveInit_renumber h hb id))
  | driveGoto => exact .statement (.of_eq (driveGoto_renumber h hb))
  | driveSpeed => exact .statement (.of_eq (driveSpeed_renumber h hb))
  | driveStop => exact .statement (.of_eq (driveStop_renumber h hb))
  | scribblerDrive => exact .statement (.of_eq (scribblerDrive_renumber h hb (hboard rfl)))
  | scribblerStop => exact .statement (.of_eq (scribblerStop_renumber hb (hboard rfl)))
  | scribblerLed => exact .statement (.of_eq (scribblerLed_renumber hb (hboard rfl)))
  | scribblerPlay => exact .statement (.of_eq (scribblerPlay_renumber h hb (hboard rfl)))
  | scribblerLine => exact .value (.of_eq (scribblerLine_renumber hb (hboard rfl)))
  | scribblerObstacle => exact .value (.of_eq (scribblerObstacle_renumber hb (hboard rfl)))

/-- In an agreeing project the recipe of every block mirrors the block's own. -/
theorem recipe_mirrors (id : BlockId)
    (hboard : ∀ kind, Kind.ofName? b.type = some kind → kind.readsBoard = true →
      p'.board = p.board) :
    (recipe p id b).Mirrors σ tells (recipe p' (σ id) b') := by
  unfold recipe
  rw [hb.type, lookup_types]
  cases hkind : Kind.ofName? b.type with
  | some kind => exact (emitter_mirrors h hcyclic hb id kind (hboard kind hkind)).fragment
  | none =>
    simp only [unknownType, hb.type, hb.warning]
    exact .of_eq rfl

end Agrees

/-- In a corresponding project the recipe of every block is the same under other numbers. -/
theorem recipe_renumber {σ : Equiv.Perm BlockId} {p p' : Project} (h : p.Corresponds σ p')
    {b b' : Block} (hb : b.Matches σ p p' b') (id : BlockId)
    (hboard : ∀ kind, Kind.ofName? b.type = some kind → kind.readsBoard = true →
      p'.board = p.board) :
    recipe p' (σ id) b' = (recipe p id b).renumber σ :=
  (recipe_mirrors h.toAgrees h.tellsCycles hb id hboard).eq_renumber

end Emit

end BlockCompiler
