import BlockCompiler.Proofs.Renumber.Flow

set_option autoImplicit false

/-! # Devices of corresponding projects

Pins, sound, files and robots. The recipes for files and for the robot that is a board of its own
read the board, so these need the two boards to be the same. -/

namespace BlockCompiler.Emit

open Recipe

variable {σ : Equiv.Perm BlockId} {p p' : Project} (h : p.Agrees σ p') {b b' : Block}
  (hb : b.Matches σ p p' b')

include hb in
theorem setPins_renumber : setPins b' = (setPins b).renumber σ := by
  have hset : PinGroup.isSet b' = PinGroup.isSet b := funext fun pin => by
    rw [PinGroup.isSet, hb.field?, PinGroup.isSet]
  simp only [setPins, pinBits, hb.pinGroup, hset, renumber_pure]

include h hb

/-! ## Pins -/

theorem makePin_renumber : makePin p' b' = (makePin p b).renumber σ := by
  simp only [makePin, hb.field, pin_renumber h hb, renumber_bind, renumber_pure]

theorem checkPin_renumber : checkPin p' b' = (checkPin p b).renumber σ := by
  simp only [checkPin, pin_renumber h hb, renumber_bind, renumber_pure]

theorem pwmStart_renumber (id : BlockId) :
    pwmStart p' b' (σ id) = (pwmStart p b id).renumber σ := by
  refine initializer_renumber h hb id .pwmStart _ ?_
  simp only [startPwm, clampedValue_renumber h hb, renumber_bind, renumber_pure]

theorem pwmSet_renumber : pwmSet p' b' = (pwmSet p b).renumber σ := by
  simp only [pwmSet, h.has, hb.field, hb.warning, pin_renumber h hb, clampedValue_renumber h hb]
  split
  · simp only [renumber_bind, renumber_pure]
  · rfl

theorem frequencyOut_renumber : frequencyOut p' b' = (frequencyOut p b).renumber σ := by
  simp only [frequencyOut, pin_renumber h hb, clampedValue_renumber h hb, renumber_bind,
    renumber_pure]

/-! ## Servos -/

theorem servoAngle_renumber : servoAngle p' b' = (servoAngle p b).renumber σ := by
  simp only [servoAngle, operand_renumber h hb, hb.socketDefault, renumber_bind]
  refine congrArg _ (funext fun found => ?_)
  cases found with
  | none => rfl
  | some found =>
    simp only
    split <;> rfl

theorem servoMove_renumber : servoMove p' b' = (servoMove p b).renumber σ := by
  simp only [servoMove, includeServo, pin_renumber h hb, servoAngle_renumber h hb, renumber_bind,
    renumber_ensure, renumber_pure]

theorem servoSpeed_renumber : servoSpeed p' b' = (servoSpeed p b).renumber σ := by
  simp only [servoSpeed, includeServo, pin_renumber h hb, clampedValue_renumber h hb,
    renumber_bind, renumber_ensure, renumber_pure]

theorem servoRamp_renumber : servoRamp p' b' = (servoRamp p b).renumber σ := by
  simp only [servoRamp, includeServo, pin_renumber h hb, clampedValue_renumber h hb,
    renumber_bind, renumber_ensure, renumber_pure]

/-! ## Sound -/

theorem soundInit_renumber (id : BlockId) :
    soundInit p' b' (σ id) = (soundInit p b id).renumber σ := by
  refine initializer_renumber h hb id .soundInit _ ?_
  simp only [startSound, pin_renumber h hb, renumber_bind, renumber_ensure, renumber_pure]

theorem soundCall_renumber (call channel : String) (greatest : Int) :
    soundCall p' b' call channel greatest = (soundCall p b call channel greatest).renumber σ := by
  simp only [soundCall, clampedValue_renumber h hb, renumber_bind, renumber_pure]

theorem soundPlay_renumber : soundPlay p' b' = (soundPlay p b).renumber σ := by
  simp only [soundPlay, h.has, hb.field, hb.warning]
  split
  · split
    case h_3 => rfl
    all_goals exact soundCall_renumber h hb _ _ _
  · rfl

theorem wavVolume_renumber : wavVolume p' b' = (wavVolume p b).renumber σ := by
  simp only [wavVolume, includeWave, clampedValue_renumber h hb, renumber_bind, renumber_ensure,
    renumber_pure]

/-! ## Drives -/

theorem driveInit_renumber (id : BlockId) :
    driveInit p' b' (σ id) = (driveInit p b id).renumber σ := by
  refine initializer_renumber h hb id .driveInit _ ?_
  simp only [startDrive, hb.field, drivePins, pin_renumber h hb, renumber_bind, renumber_ensure]
  refine congrArg _ (funext fun _ => ?_)
  split
  · simp only [renumber_bind, renumber_ensure, renumber_pure]
  · rfl

omit hb in
theorem configuredDrive?_eq : configuredDrive? p' = configuredDrive? p := by
  have hrel := h.blocksInOrder .driveInit
  unfold configuredDrive?
  generalize p.blocksInOrder .driveInit = blocks, p'.blocksInOrder .driveInit = blocks' at hrel
  cases hrel with
  | nil => rfl
  | cons hinit _ => simp only [List.head?_cons, Option.map_some, hinit.fieldOr]

theorem withDrive_renumber {code code' : Drive → Recipe String}
    (hcode : ∀ drive, code' drive = (code drive).renumber σ) :
    withDrive p' b' code' = (withDrive p b code).renumber σ := by
  unfold withDrive
  rw [configuredDrive?_eq h]
  split
  · exact hcode _
  · exact hb.warning _

theorem driveGoto_renumber : driveGoto p' b' = (driveGoto p b).renumber σ := by
  refine withDrive_renumber h hb fun drive => ?_
  split
  · exact hb.warning _
  · simp only [value_renumber h hb, renumber_bind, renumber_pure]

theorem driveSpeed_renumber : driveSpeed p' b' = (driveSpeed p b).renumber σ := by
  refine withDrive_renumber h hb fun drive => ?_
  simp only [clampedValue_renumber h hb, renumber_bind, renumber_pure]

theorem driveStop_renumber : driveStop p' b' = (driveStop p b).renumber σ :=
  withDrive_renumber h hb fun _ => rfl

/-! ## Files -/

theorem cardInit_renumber (id : BlockId) :
    cardInit p' b' (σ id) = (cardInit p b id).renumber σ := by
  refine initializer_renumber h hb id .cardInit _ ?_
  simp only [mountCard, pin_renumber h hb, renumber_bind, renumber_replaceSetup, renumber_pure]

variable (hboard : p'.board = p.board)

include hboard

theorem cardWarning?_renumber : cardWarning? p' b' = (cardWarning? p b).renumber σ := by
  unfold cardWarning?
  rw [h.has, hboard]
  split
  · rfl
  · split
    · rfl
    · rw [hb.warning]
      rfl

theorem fileWarning?_renumber : fileWarning? p' b' = (fileWarning? p b).renumber σ := by
  simp only [fileWarning?, cardWarning?_renumber h hb hboard, h.has, hb.warning, renumber_bind]
  refine congrArg _ (funext fun line? => ?_)
  cases line? with
  | some line => rfl
  | none =>
    simp only
    split <;> rfl

theorem fileOpen_renumber : fileOpen p' b' = (fileOpen p b).renumber σ := by
  simp only [fileOpen, cardWarning?_renumber h hb hboard, hb.field, nameWarning, hb.warning,
    renumber_bind]
  refine congrArg _ (funext fun line? => ?_)
  cases line? with
  | some line => rfl
  | none =>
    simp only
    split <;> rfl

theorem fileRead_renumber : fileRead p' b' = (fileRead p b).renumber σ := by
  have hreserve : ∀ name size, (reserveRead name size).renumber σ = reserveRead name size := by
    intro name size
    unfold reserveRead
    split
    · split <;> rfl
    · rfl
  unfold fileRead
  rw [hb.variableName]
  simp only [fileWarning?_renumber h hb hboard, renumber_bind]
  refine congrArg _ (funext fun line? => ?_)
  cases line? with
  | some line => rfl
  | none =>
    simp only [value_renumber h hb, renumber_bind, renumber_setType, hreserve, renumber_pure]

theorem fileWrite_renumber : fileWrite p' b' = (fileWrite p b).renumber σ := by
  have hlength : ∀ text, (textLength text).renumber σ = textLength text := by
    intro text
    unfold textLength
    split <;> rfl
  simp only [fileWrite, fileWarning?_renumber h hb hboard, renumber_bind]
  refine congrArg _ (funext fun line? => ?_)
  cases line? with
  | some line => rfl
  | none => simp only [value_renumber h hb, hlength, renumber_bind, renumber_pure]

theorem fileClose_renumber : fileClose p' b' = (fileClose p b).renumber σ := by
  simp only [fileClose, fileWarning?_renumber h hb hboard, renumber_bind]
  refine congrArg _ (funext fun line? => ?_)
  cases line? <;> rfl

theorem wavPlay_renumber : wavPlay p' b' = (wavPlay p b).renumber σ := by
  simp only [wavPlay, cardWarning?_renumber h hb hboard, hb.field, nameWarning, hb.warning,
    renumber_bind]
  refine congrArg _ (funext fun line? => ?_)
  cases line? with
  | some line => rfl
  | none =>
    simp only
    split <;> rfl

/-! ## Scribbler -/

omit h in
theorem scribblerWarning?_renumber :
    scribblerWarning? p' b' = (scribblerWarning? p b).renumber σ := by
  unfold scribblerWarning?
  rw [hboard]
  split
  · rfl
  · rw [hb.warning]
    rfl

omit h in
theorem onScribbler_renumber {code code' : Recipe String} (hcode : code' = code.renumber σ) :
    onScribbler p' b' code' = (onScribbler p b code).renumber σ := by
  simp only [onScribbler, scribblerWarning?_renumber hb hboard, renumber_bind]
  refine congrArg _ (funext fun line? => ?_)
  cases line? with
  | some line => rfl
  | none => exact hcode

omit h in
theorem fromScribbler_renumber {code code' : Recipe Operand} (hcode : code' = code.renumber σ) :
    fromScribbler p' b' code' = (fromScribbler p b code).renumber σ := by
  simp only [fromScribbler, scribblerWarning?_renumber hb hboard, renumber_bind]
  refine congrArg _ (funext fun line? => ?_)
  cases line? with
  | some line => rfl
  | none => exact hcode

theorem scribblerDrive_renumber : scribblerDrive p' b' = (scribblerDrive p b).renumber σ := by
  refine onScribbler_renumber hb hboard ?_
  simp only [clampedValue_renumber h hb, renumber_bind, renumber_pure]

omit h in
theorem scribblerStop_renumber : scribblerStop p' b' = (scribblerStop p b).renumber σ :=
  onScribbler_renumber hb hboard rfl

omit h in
theorem scribblerLed_renumber : scribblerLed p' b' = (scribblerLed p b).renumber σ := by
  refine onScribbler_renumber hb hboard ?_
  simp only [hb.field, hb.warning]
  split <;> rfl

theorem scribblerPlay_renumber : scribblerPlay p' b' = (scribblerPlay p b).renumber σ := by
  refine onScribbler_renumber hb hboard ?_
  simp only [clampedValue_renumber h hb, hb.field, renumber_bind, renumber_pure]

omit h in
theorem scribblerLine_renumber : scribblerLine p' b' = (scribblerLine p b).renumber σ := by
  refine fromScribbler_renumber hb hboard ?_
  simp only [hb.field, renumber_pure]

omit h in
theorem scribblerObstacle_renumber :
    scribblerObstacle p' b' = (scribblerObstacle p b).renumber σ := by
  refine fromScribbler_renumber hb hboard ?_
  simp only [hb.field, renumber_pure]

end BlockCompiler.Emit
