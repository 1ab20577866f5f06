import BlockCompiler.Proofs.Emit.Data

set_option autoImplicit false

/-! # Pins, sound, cards and robots: what the recipes read and do -/

namespace BlockCompiler.Emit

variable (p : Project) (b : Block)

/-! ## Pins -/

theorem makePin_reads (kind : Kind) :
    Reads p b kind [.value "PIN"] Text.IsClosed (makePin p b) :=
  (pin_reads p b kind "PIN").bind fun _ => .pure (Text.IsClosed.of_end _ rfl)

theorem checkPin_reads (kind : Kind) :
    Reads p b kind [.value "PIN"] (fun _ => True) (checkPin p b) :=
  (pin_reads p b kind "PIN").bind fun _ => .pure trivial

theorem setPins_reads : Reads p b .setPins [] Text.IsClosed (setPins b) :=
  .pure (Text.IsClosed.of_end _ rfl)

/-- An initializer that is a second one yields its warning, and any other goes on. -/
theorem initializer_reads {kind : Kind} {label : String} {slots : List Slot} (id : BlockId)
    (h : initializerLabel? kind = some label) {setUp : Recipe String}
    (hsetUp : Reads p b kind slots Text.IsClosed setUp) :
    Reads p b kind slots Text.IsClosed (initializer p id b kind label setUp) := by
  refine (duplicateWarning?_reads p b id h).bind_given fun warning => ?_
  cases warning with
  | some line => exact Reads.of_nil (.pure fun hwarning => hwarning line rfl) _
  | none => exact hsetUp.weaken fun _ hclosed _ => hclosed

theorem pwmStart_reads (id : BlockId) :
    Reads p b .pwmStart (slots b .pwmStart) Text.IsClosed (pwmStart p b id) :=
  initializer_reads p b id rfl
    ((clampedValue_reads p b .pwmStart "PERIOD" 1 greatestInt32 .anything).bind fun _ =>
      .pure (Text.IsClosed.of_end _ rfl))

theorem pwmSet_reads : Reads p b .pwmSet (slots b .pwmSet) Text.IsClosed (pwmSet p b) := by
  unfold pwmSet
  split
  · refine (pin_reads p b .pwmSet "PIN").bind fun number => ?_
    refine (clampedValue_reads p b .pwmSet "DUTY_CYCLE" 0 100 .anything).bind fun duty => .pure ?_
    exact .of_end _ rfl
  · refine Reads.of_nil (.warning (.noInitializer ?_)) _
    exact List.mem_cons_self

theorem pwmStop_reads : Reads p b .pwmStop [] Text.IsClosed pwmStop :=
  .pure (.inr rfl)

theorem frequencyOut_reads :
    Reads p b .frequencyOut (slots b .frequencyOut) Text.IsClosed (frequencyOut p b) := by
  refine (pin_reads p b .frequencyOut "PIN").bind fun number => ?_
  refine (clampedValue_reads p b _ "DURATION" 0 greatestInt32 .anything).bind fun duration => ?_
  refine (clampedValue_reads p b _ "FREQUENCY" 0 20000 .anything).bind fun frequency => .pure ?_
  exact .of_end _ rfl

theorem includeServo_reads {kind : Kind} (h : (.includes, "servo") ∈ ownKeys kind) :
    Reads p b kind [] (fun _ => True) includeServo :=
  .ensure (.own _ h (by simp [fixedTexts]))

theorem servoAngle_reads {kind : Kind} :
    Reads p b kind [.value "ANGLE"] (fun _ => True) (servoAngle p b) := by
  refine (operand_reads p b kind "ANGLE").bind fun found => ?_
  cases found with
  | none => exact .pure trivial
  | some found =>
    dsimp only
    split
    · exact .pure trivial
    · exact .pure trivial

theorem servoMove_reads : Reads p b .servoMove (slots b .servoMove) Text.IsClosed (servoMove p b) := by
  refine (includeServo_reads p b List.mem_cons_self).bind fun _ => ?_
  refine (pin_reads p b .servoMove "PIN").bind fun number => ?_
  exact (servoAngle_reads p b).bind fun angle => .pure (Text.IsClosed.of_end _ rfl)

theorem servoSpeed_reads :
    Reads p b .servoSpeed (slots b .servoSpeed) Text.IsClosed (servoSpeed p b) := by
  refine (includeServo_reads p b List.mem_cons_self).bind fun _ => ?_
  refine (pin_reads p b .servoSpeed "PIN").bind fun number => ?_
  refine (clampedValue_reads p b _ "SPEED" (-200) 200 .anything).bind fun speed => .pure ?_
  exact .of_end _ rfl

theorem servoRamp_reads :
    Reads p b .servoRamp (slots b .servoRamp) Text.IsClosed (servoRamp p b) := by
  refine (includeServo_reads p b List.mem_cons_self).bind fun _ => ?_
  refine (pin_reads p b .servoRamp "PIN").bind fun number => ?_
  refine (clampedValue_reads p b _ "RAMPSTEP" 0 100 .anything).bind fun step => .pure ?_
  exact .of_end _ rfl

/-! ## Cards -/

theorem declareFile_reads {kind : Kind} (h : (.globals, "sd_file") ∈ ownKeys kind) :
    Reads p b kind [] (fun _ => True) declareFile :=
  .ensure (.own _ h (by simp [fixedTexts]))

theorem cardWarning?_reads {kind : Kind} (h : usesCard kind = true) :
    Reads p b kind [] (fun warning => ∀ line ∈ warning, Text.IsClosed line)
      (cardWarning? p b) := by
  unfold cardWarning?
  split
  · exact .pure nofun
  · next hinit =>
    split
    · exact (Reads.ensure (.mount _ h (Bool.eq_false_iff.2 hinit))).bind fun _ => .pure nofun
    · refine (Reads.warning (.noInitializer ?_)).bind_given fun line => .pure fun hline => ?_
      · exact List.mem_cons_of_mem _ (List.mem_cons_of_mem _ List.mem_cons_self)
      · rintro _ ⟨⟩
        exact hline

theorem fileWarning?_reads {kind : Kind} (h : usesCard kind = true)
    (hfile : (.globals, "sd_file") ∈ ownKeys kind) :
    Reads p b kind [] (fun warning => ∀ line ∈ warning, Text.IsClosed line)
      (fileWarning? p b) := by
  refine (cardWarning?_reads p b h).bind_given fun warning => ?_
  cases warning with
  | some line => exact .pure id
  | none =>
    dsimp only
    split
    · exact (declareFile_reads p b hfile).bind fun _ => .pure nofun
    · refine (Reads.warning .noFile).bind_given fun line => .pure fun hline _ => ?_
      rintro _ ⟨⟩
      exact hline

/-- A block that needs something yields a warning while it is missing, and else goes on. -/
theorem unless_reads {kind : Kind} {slots : List Slot} {check : Recipe (Option String)}
    {code : Recipe String}
    (hcheck : Reads p b kind [] (fun warning => ∀ line ∈ warning, Text.IsClosed line) check)
    (hcode : Reads p b kind slots Text.IsClosed code) :
    Reads p b kind slots Text.IsClosed (do
      match ← check with
      | some line => return line
      | none => code) := by
  refine hcheck.bind_given fun warning => ?_
  cases warning with
  | some line => exact Reads.of_nil (.pure fun hwarning => hwarning line rfl) _
  | none => exact hcode.weaken fun _ hclosed _ => hclosed

theorem cardInit_reads (id : BlockId) :
    Reads p b .cardInit (slots b .cardInit) Text.IsClosed (cardInit p b id) := by
  refine initializer_reads p b id rfl ?_
  refine (pin_reads p b .cardInit "DO").bind fun dataOut => ?_
  refine (pin_reads p b .cardInit "CLK").bind fun clock => ?_
  refine (pin_reads p b .cardInit "DI").bind fun dataIn => ?_
  refine (pin_reads p b .cardInit "CS").bind fun select => ?_
  exact (Reads.perform (.remount _ rfl)).bind fun _ => .pure Text.isClosed_empty

theorem fileOpen_reads : Reads p b .fileOpen [] Text.IsClosed (fileOpen p b) := by
  refine unless_reads p b (cardWarning?_reads p b rfl) ?_
  split
  · exact .warning (.badName _)
  · refine (declareFile_reads p b List.mem_cons_self).bind fun _ => .pure ?_
    exact .of_end _ rfl

theorem reserveRead_reads {kind : Kind} (size : String) :
    Reads p b kind [] (fun _ => True) (reserveRead (variableName p b) size) := by
  unfold reserveRead
  split
  · split
    · exact .perform (.setLength _)
    · exact .pure trivial
  · exact .pure trivial

theorem fileRead_reads : Reads p b .fileRead (slots b .fileRead) Text.IsClosed (fileRead p b) := by
  refine unless_reads p b (fileWarning?_reads p b rfl List.mem_cons_self) ?_
  refine (value_reads p b .fileRead "SIZE" .anything).bind fun size => ?_
  refine (Reads.perform (.setType rfl)).bind fun _ => ?_
  refine (reserveRead_reads p b size).bind fun _ => .pure ?_
  exact .of_end _ rfl

theorem textLength_reads (text : String) :
    Reads p b .fileWrite [] (fun _ => True) (textLength text) := by
  unfold textLength
  split
  · exact .pure trivial
  · refine (includeStrings_reads p b ?_).bind fun _ => .pure trivial
    exact List.mem_cons_of_mem _ List.mem_cons_self

theorem fileWrite_reads :
    Reads p b .fileWrite (slots b .fileWrite) Text.IsClosed (fileWrite p b) := by
  refine unless_reads p b (fileWarning?_reads p b rfl List.mem_cons_self) ?_
  refine (value_reads p b .fileWrite "VALUE" .anything).bind fun text => ?_
  exact (textLength_reads p b text).bind fun length => .pure (Text.IsClosed.of_end _ rfl)

theorem fileClose_reads : Reads p b .fileClose [] Text.IsClosed (fileClose p b) :=
  unless_reads p b (fileWarning?_reads p b rfl List.mem_cons_self) (.pure (.inr rfl))

/-! ## Sound -/

theorem soundInit_reads (id : BlockId) :
    Reads p b .soundInit (slots b .soundInit) Text.IsClosed (soundInit p b id) := by
  refine initializer_reads p b id rfl ?_
  refine (pin_reads p b .soundInit "PINL").bind fun left => ?_
  refine (pin_reads p b .soundInit "PINR").bind fun right => ?_
  refine (Reads.ensure (.own _ ?_ (by simp [fixedTexts]))).bind fun _ => ?_
  · exact List.mem_cons_self
  refine (Reads.ensure (.own _ ?_ (by simp [fixedTexts]))).bind fun _ => ?_
  · exact List.mem_cons_of_mem _ List.mem_cons_self
  refine (Reads.ensure (.own _ ?_ (by simp [fixedTexts]))).bind fun _ => .pure Text.isClosed_empty
  exact List.mem_cons_of_mem _ (List.mem_cons_of_mem _ List.mem_cons_self)

theorem soundCall_reads (call channel : String) (greatest : Int) :
    Reads p b .soundPlay [.value "VALUE"] Text.IsClosed (soundCall p b call channel greatest) :=
  (clampedValue_reads p b .soundPlay "VALUE" 0 greatest .anything).bind fun _ =>
    .pure (Text.IsClosed.of_end _ rfl)

theorem soundPlay_reads : Reads p b .soundPlay (slots b .soundPlay) Text.IsClosed (soundPlay p b) := by
  unfold soundPlay
  split
  · dsimp only
    split
    · exact soundCall_reads p b "sound_volume" _ 127
    · exact soundCall_reads p b "sound_wave" _ 7
    · exact Reads.of_nil (.pure (Text.IsClosed.of_end _ rfl)) _
    · exact soundCall_reads p b "sound_freq" _ 20000
  · refine Reads.of_nil (.warning (.noInitializer ?_)) _
    exact List.mem_cons_of_mem _ List.mem_cons_self

theorem includeWave_reads {kind : Kind} (h : (.includes, "wavplayer") ∈ ownKeys kind) :
    Reads p b kind [] (fun _ => True) includeWave :=
  .ensure (.own _ h (by simp [fixedTexts]))

theorem wavPlay_reads : Reads p b .wavPlay [] Text.IsClosed (wavPlay p b) := by
  refine unless_reads p b (cardWarning?_reads p b rfl) ?_
  split
  · exact .warning (.badName _)
  · refine (includeWave_reads p b List.mem_cons_self).bind fun _ => .pure ?_
    exact .of_end _ rfl

theorem wavVolume_reads : Reads p b .wavVolume (slots b .wavVolume) Text.IsClosed (wavVolume p b) := by
  refine (includeWave_reads p b List.mem_cons_self).bind fun _ => ?_
  refine (clampedValue_reads p b .wavVolume "VOLUME" 0 10 .anything).bind fun volume => .pure ?_
  exact .of_end _ rfl

theorem wavStop_reads : Reads p b .wavStop [] Text.IsClosed wavStop :=
  (includeWave_reads p b List.mem_cons_self).bind fun _ => .pure (.inr rfl)

/-! ## Drives -/

theorem withDrive_reads {kind : Kind} {slots : List Slot} {code : Drive → Recipe String}
    (h : ∀ drive, Reads p b kind slots Text.IsClosed (code drive)) :
    Reads p b kind slots Text.IsClosed (withDrive p b code) := by
  unfold withDrive
  split
  · exact h _
  · refine Reads.of_nil (.warning (.noInitializer ?_)) _
    exact List.mem_cons_of_mem _ (List.mem_cons_of_mem _ (List.mem_cons_of_mem _ List.mem_cons_self))

theorem drivePins_reads :
    Reads p b .driveInit [.value "LEFT", .value "RIGHT"] (fun _ => True) (drivePins p b) := by
  refine (pin_reads p b .driveInit "LEFT").bind fun left => ?_
  refine (pin_reads p b .driveInit "RIGHT").bind fun right => ?_
  exact .ensure (.own _ (List.mem_cons_of_mem _ List.mem_cons_self) (by simp [fixedTexts]))

theorem driveInit_reads (id : BlockId) :
    Reads p b .driveInit (slots b .driveInit) Text.IsClosed (driveInit p b id) := by
  refine initializer_reads p b id rfl ?_
  refine (Reads.ensure (.own _ List.mem_cons_self (by simp [fixedTexts]))).bind fun _ => ?_
  split
  · exact (drivePins_reads p b).bind fun _ => .pure Text.isClosed_empty
  · exact Reads.of_nil (.pure Text.isClosed_empty) _

theorem driveGoto_reads : Reads p b .driveGoto (slots b .driveGoto) Text.IsClosed (driveGoto p b) := by
  refine withDrive_reads p b ?_
  intro drive
  split
  · exact Reads.of_nil (.warning .noDistance) _
  · refine (value_reads p b .driveGoto "LEFT" .anything).bind fun left => ?_
    refine (value_reads p b .driveGoto "RIGHT" .anything).bind fun right => .pure ?_
    exact .of_end _ rfl

theorem driveSpeed_reads :
    Reads p b .driveSpeed (slots b .driveSpeed) Text.IsClosed (driveSpeed p b) := by
  refine withDrive_reads p b ?_
  intro drive
  refine (clampedValue_reads p b .driveSpeed "LEFT" _ _ .anything).bind fun left => ?_
  refine (clampedValue_reads p b .driveSpeed "RIGHT" _ _ .anything).bind fun right => .pure ?_
  exact .of_end _ rfl

theorem driveStop_reads : Reads p b .driveStop [] Text.IsClosed (driveStop p b) :=
  withDrive_reads p b fun _ => .pure (Text.IsClosed.of_end _ rfl)

/-! ## Scribbler -/

section Scribbler

variable {kind : Kind}
  (h : ownKeys kind = [(.includes, "s3"), (.setups, "s3_setup")])

include h

theorem scribblerWarning?_reads :
    Reads p b kind [] (fun warning => ∀ line ∈ warning, Text.IsClosed line)
      (scribblerWarning? p b) := by
  unfold scribblerWarning?
  split
  · refine (Reads.ensure (.own _ ?_ (by simp [fixedTexts]))).bind fun _ => ?_
    · rw [h]; exact List.mem_cons_self
    refine (Reads.ensure (.own _ ?_ (by simp [fixedTexts]))).bind fun _ => .pure (by simp)
    rw [h]
    exact List.mem_cons_of_mem _ List.mem_cons_self
  · refine (Reads.warning .wrongBoard).bind_given fun line => .pure fun hline => ?_
    rintro _ ⟨⟩
    exact hline

theorem onScribbler_reads {slots : List Slot} {code : Recipe String}
    (hcode : Reads p b kind slots Text.IsClosed code) :
    Reads p b kind slots Text.IsClosed (onScribbler p b code) :=
  unless_reads p b (scribblerWarning?_reads p b h) hcode

theorem fromScribbler_reads {code : Recipe Operand}
    (hcode : Reads p b kind [] (fun _ => True) code) :
    Reads p b kind [] (fun _ => True) (fromScribbler p b code) := by
  refine (scribblerWarning?_reads p b h).bind fun warning => ?_
  cases warning with
  | some line => exact .pure trivial
  | none => exact hcode

end Scribbler

theorem scribblerDrive_reads :
    Reads p b .scribblerDrive (slots b .scribblerDrive) Text.IsClosed (scribblerDrive p b) := by
  refine onScribbler_reads p b rfl ?_
  refine (clampedValue_reads p b .scribblerDrive "LEFT_MOTOR_SPEED" (-100) 100 .anything).bind
    fun left => ?_
  refine (clampedValue_reads p b .scribblerDrive "RIGHT_MOTOR_SPEED" (-100) 100 .anything).bind
    fun right => ?_
  refine (clampedValue_reads p b .scribblerDrive "MOTOR_DURATION" 0 15000 .anything).bind
    fun duration => .pure ?_
  exact .of_end _ rfl

theorem scribblerStop_reads : Reads p b .scribblerStop [] Text.IsClosed (scribblerStop p b) :=
  onScribbler_reads p b rfl (.pure (.inr rfl))

theorem scribblerLed_reads : Reads p b .scribblerLed [] Text.IsClosed (scribblerLed p b) := by
  refine onScribbler_reads p b rfl ?_
  dsimp only
  split
  · exact .pure (Text.IsClosed.of_end _ rfl)
  · refine (Reads.warning (.badColor _)).bind fun line => .pure ?_
    exact .of_end _ rfl

theorem scribblerPlay_reads :
    Reads p b .scribblerPlay (slots b .scribblerPlay) Text.IsClosed (scribblerPlay p b) := by
  refine onScribbler_reads p b rfl ?_
  refine (clampedValue_reads p b .scribblerPlay "FREQUENCY" 0 20000 .anything).bind
    fun frequency => ?_
  refine (clampedValue_reads p b .scribblerPlay "DURATION" 0 8000 .anything).bind
    fun duration => .pure ?_
  exact .of_end _ rfl

theorem scribblerLine_reads : Reads p b .scribblerLine [] (fun _ => True) (scribblerLine p b) :=
  fromScribbler_reads p b rfl (.pure trivial)

theorem scribblerObstacle_reads :
    Reads p b .scribblerObstacle [] (fun _ => True) (scribblerObstacle p b) :=
  fromScribbler_reads p b rfl (.pure trivial)

end BlockCompiler.Emit
