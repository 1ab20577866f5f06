import BlockCompiler.Proofs.Emit.Device
import BlockCompiler.Proofs.Emit.Flow

set_option autoImplicit false

/-! # The catalog: what every recipe reads and does

One statement for the blocks of all kinds, and for those of an unknown type as well. -/

namespace BlockCompiler

namespace Emit

/-- An emitter reads some of the given sockets and acts as its kind may; its statements are closed. -/
def EmitterReads (p : Project) (b : Block) (kind : Kind) (slots : List Slot) : Emitter → Prop
  | .statement code => Reads p b kind slots Text.IsClosed code
  | .value code => Reads p b kind slots (fun _ => True) code

variable (p : Project) (b : Block)

/-- The recipe of every kind of block reads the sockets of its kind. -/
theorem emitter_reads (id : BlockId) (kind : Kind) :
    EmitterReads p b kind (slots b kind) (emitter p id b kind) := by
  cases kind with
  | comment => exact comment_reads p b
  | customCode => exact customCode_reads p b
  | pause => exact pause_reads p b
  | systemCounter => exact .pure trivial
  | branch => exact branch_reads p b
  | repeatLoop => exact repeatLoop_reads p b
  | countingLoop => exact countingLoop_reads p b
  | leaveLoop => exact leaveLoop_reads p b
  | procedure => exact procedure_reads p b
  | procedureCall => exact procedureCall_reads p b
  | newCog => exact newCog_reads p b
  | number => exact .pure trivial
  | arithmetic => exact arithmetic_reads p b
  | limit => exact limit_reads p b
  | stepVariable => exact stepVariable_reads p b
  | random => exact random_reads p b
  | boolean => exact .pure trivial
  | compare => exact compare_reads p b
  | logic => exact logic_reads p b
  | negate => exact negate_reads p b
  | text => exact .pure trivial
  | readVariable => exact .pure trivial
  | assign => exact assign_reads p b
  | arrayInit => exact arrayInit_reads p b
  | arrayGet => exact arrayGet_reads p b
  | arraySet => exact arraySet_reads p b
  | arrayFill => exact arrayFill_reads p b
  | arrayClear => exact arrayClear_reads p b
  | print => exact print_reads p b
  | printValue => exact printValue_reads p b
  | printNewline => exact printNewline_reads p b
  | makePin => exact makePin_reads p b .makePin
  | makePinInput => exact makePin_reads p b .makePinInput
  | checkPin => exact checkPin_reads p b .checkPin
  | checkPinInput => exact checkPin_reads p b .checkPinInput
  | setPins => exact setPins_reads p b
  | pwmStart => exact pwmStart_reads p b id
  | pwmSet => exact pwmSet_reads p b
  | pwmStop => exact pwmStop_reads p b
  | frequencyOut => exact frequencyOut_reads p b
  | soundInit => exact soundInit_reads p b id
  | soundPlay => exact soundPlay_reads p b
  | wavPlay => exact wavPlay_reads p b
  | wavVolume => exact wavVolume_reads p b
  | wavStop => exact wavStop_reads p b
  | cardInit => exact cardInit_reads p b id
  | fileOpen => exact fileOpen_reads p b
  | fileRead => exact fileRead_reads p b
  | fileWrite => exact fileWrite_reads p b
  | fileClose => exact fileClose_reads p b
  | servoMove => exact servoMove_reads p b
  | servoSpeed => exact servoSpeed_reads p b
  | servoRamp => exact servoRamp_reads p b
  | memoryWrite => exact memoryWrite_reads p b
  | memoryRead => exact memoryRead_reads p b
  | driveInit => exact driveInit_reads p b id
  | driveGoto => exact driveGoto_reads p b
  | driveSpeed => exact driveSpeed_reads p b
  | driveStop => exact driveStop_reads p b
  | scribblerDrive => exact scribblerDrive_reads p b
  | scribblerStop => exact scribblerStop_reads p b
  | scribblerLed => exact scribblerLed_reads p b
  | scribblerPlay => exact scribblerPlay_reads p b
  | scribblerLine => exact scribblerLine_reads p b
  | scribblerObstacle => exact scribblerObstacle_reads p b

variable {p b}

theorem EmitterReads.fragment {kind : Kind} {slots : List Slot} {e : Emitter}
    (h : EmitterReads p b kind slots e) : Reads p b kind slots Fragment.IsClosed e.fragment := by
  rw [← List.append_nil slots]
  cases e with
  | statement code => exact Reads.bind_given h fun text => .pure id
  | value code => exact Reads.bind h fun operand => .pure trivial

/-- The message about a block whose type is unknown. -/
def unknownMessage (b : Block) : String := "Unknown block type \"" ++ b.type ++ "\""

theorem recipe_of_kind {kind : Kind} (h : Kind.ofName? b.type = some kind) (id : BlockId) :
    recipe p id b = (emitter p id b kind).fragment := by
  rw [recipe, lookup_types, h]

theorem recipe_of_unknown (h : Kind.ofName? b.type = none) (id : BlockId) :
    recipe p id b = (Emitter.statement (unknownType b)).fragment := by
  rw [recipe, lookup_types, h]

/-- A path of a kind that yields statements is a path of its code. -/
theorem path_of_statement {code : Recipe String} {es : List Event} {fragment : Fragment}
    (h : (Emitter.statement code).fragment.Path es fragment) :
    ∃ text, fragment = .statement text ∧ code.Path es text := by
  obtain ⟨es₁, text, es₂, rfl, hcode, hpure⟩ := h.of_bind
  obtain ⟨rfl, rfl⟩ := hpure.of_pure
  exact ⟨text, rfl, (List.append_nil es₁).symm ▸ hcode⟩

end Emit

/-! ## Every block -/

namespace Project

/-- The blocks that a block's recipe may ask for, in the order in which it does. -/
def reads (p : Project) (b : Block) : List BlockId :=
  match Kind.ofName? b.type with
  | some kind => (Emit.slots b kind).flatMap (p.filled b)
  | none => []

/-- A recipe only asks for blocks that take part in the program. -/
theorem takesPart_of_mem_reads {p : Project} {b : Block} {x : BlockId} (hx : x ∈ p.reads b) :
    p.workspace.takesPart x = true := by
  unfold reads at hx
  split at hx
  · obtain ⟨slot, -, hx⟩ := List.mem_flatMap.1 hx
    cases slot with
    | value socket =>
      obtain ⟨child, hplugged⟩ := mem_filled_value.1 hx
      obtain ⟨-, hchild, henabled⟩ := plugged?_eq_some hplugged
      exact Workspace.takesPart_eq_true_iff.2 ⟨child, hchild, henabled⟩
    | stack socket =>
      obtain ⟨-, -, -, htakes⟩ := mem_filled_stack.1 hx
      exact htakes
  · cases hx

/-- The actions that a block's recipe may take. -/
def Allows (p : Project) (b : Block) (action : Action) : Prop :=
  match Kind.ofName? b.type with
  | some kind => Emit.Allowed p b kind action
  | none => ∃ d, action = .diagnose d ∧ d.message = Emit.unknownMessage b

/-- A diagnostic that a recipe may record is a remark of its kind or is about the type. -/
theorem Allows.of_diagnose {p : Project} {b : Block} {d : Diagnostic}
    (h : p.Allows b (.diagnose d)) :
    (∃ kind, Kind.ofName? b.type = some kind ∧ Emit.Remark p b kind d.message) ∨
      d.message = Emit.unknownMessage b := by
  unfold Allows at h
  split at h
  · next kind hkind =>
    cases h with
    | diagnose hremark => exact .inl ⟨kind, hkind, hremark⟩
  · obtain ⟨d', heq, hd'⟩ := h
    cases heq
    exact .inr hd'

/-- What every recipe reads and does. -/
theorem recipe_meets (p : Project) (id : BlockId) (b : Block) :
    (Emit.recipe p id b).Meets (p.reads b) (p.Allows b) Fragment.IsClosed := by
  unfold reads Allows
  cases h : Kind.ofName? b.type with
  | some kind =>
    rw [Emit.recipe_of_kind h]
    exact (Emit.emitter_reads p b id kind).fragment.meets
  | none =>
    rw [Emit.recipe_of_unknown h]
    have hwarning : (Emit.unknownType b).Meets [] (fun action =>
        ∃ d, action = .diagnose d ∧ d.message = Emit.unknownMessage b) Text.IsClosed :=
      (Recipe.Meets.perform ⟨_, rfl, rfl⟩).bind fun _ _ => .pure (Emit.isClosed_comment _)
    exact hwarning.bind fun text htext => .pure htext

end Project

end BlockCompiler
