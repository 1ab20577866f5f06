set_option autoImplicit false

/-! # Kinds of blocks

The block types that the compiler knows. A workspace may hold blocks of other types; they have no
kind. -/

namespace BlockCompiler

/-- A block type known to the compiler. -/
inductive Kind where
  | comment
  | customCode
  | pause
  | systemCounter
  | branch
  | repeatLoop
  | countingLoop
  | leaveLoop
  | procedure
  | procedureCall
  | newCog
  | number
  | arithmetic
  | limit
  | stepVariable
  | random
  | boolean
  | compare
  | logic
  | negate
  | text
  | readVariable
  | assign
  | arrayInit
  | arrayGet
  | arraySet
  | arrayFill
  | arrayClear
  | print
  | printValue
  | printNewline
  | makePin
  | makePinInput
  | checkPin
  | checkPinInput
  | setPins
  | pwmStart
  | pwmSet
  | pwmStop
  | frequencyOut
  | soundInit
  | soundPlay
  | wavPlay
  | wavVolume
  | wavStop
  | cardInit
  | fileOpen
  | fileRead
  | fileWrite
  | fileClose
  | servoMove
  | servoSpeed
  | servoRamp
  | memoryWrite
  | memoryRead
  | driveInit
  | driveGoto
  | driveSpeed
  | driveStop
  | scribblerDrive
  | scribblerStop
  | scribblerLed
  | scribblerPlay
  | scribblerLine
  | scribblerObstacle
  deriving Repr, DecidableEq

namespace Kind

/-- The name of the type in a document. -/
def name : Kind → String
  | .comment => "comment"
  | .customCode => "custom_code"
  | .pause => "pause"
  | .systemCounter => "system_counter"
  | .branch => "controls_if"
  | .repeatLoop => "controls_repeat"
  | .countingLoop => "controls_for"
  | .leaveLoop => "controls_break"
  | .procedure => "procedures_defnoreturn"
  | .procedureCall => "procedures_callnoreturn"
  | .newCog => "cog_new"
  | .number => "math_number"
  | .arithmetic => "math_arithmetic"
  | .limit => "math_limit"
  | .stepVariable => "math_crement"
  | .random => "math_random"
  | .boolean => "logic_boolean"
  | .compare => "logic_compare"
  | .logic => "logic_operation"
  | .negate => "logic_negate"
  | .text => "string_type_block"
  | .readVariable => "variables_get"
  | .assign => "variables_set"
  | .arrayInit => "array_init"
  | .arrayGet => "array_get"
  | .arraySet => "array_set"
  | .arrayFill => "array_fill"
  | .arrayClear => "array_clear"
  | .print => "console_print"
  | .printValue => "console_print_variables"
  | .printNewline => "console_newline"
  | .makePin => "make_pin"
  | .makePinInput => "make_pin_input"
  | .checkPin => "check_pin"
  | .checkPinInput => "check_pin_input"
  | .setPins => "set_pins"
  | .pwmStart => "pwm_start"
  | .pwmSet => "pwm_set"
  | .pwmStop => "pwm_stop"
  | .frequencyOut => "base_freqout"
  | .soundInit => "sound_init"
  | .soundPlay => "sound_play"
  | .wavPlay => "wav_play"
  | .wavVolume => "wav_volume"
  | .wavStop => "wav_stop"
  | .cardInit => "sd_init"
  | .fileOpen => "sd_open"
  | .fileRead => "sd_read"
  | .fileWrite => "sd_write"
  | .fileClose => "sd_close"
  | .servoMove => "servo_move"
  | .servoSpeed => "servo_speed"
  | .servoRamp => "servo_set_ramp"
  | .memoryWrite => "eeprom_write"
  | .memoryRead => "eeprom_read"
  | .driveInit => "ab_drive_init"
  | .driveGoto => "ab_drive_goto"
  | .driveSpeed => "ab_drive_speed"
  | .driveStop => "ab_drive_stop"
  | .scribblerDrive => "scribbler_drive"
  | .scribblerStop => "scribbler_stop"
  | .scribblerLed => "scribbler_led"
  | .scribblerPlay => "scribbler_play"
  | .scribblerLine => "scribbler_simple_line"
  | .scribblerObstacle => "scribbler_simple_obstacle"

/-- Every kind, by family. -/
def all : List Kind := [
  .comment, .customCode, .pause, .systemCounter, .branch, .repeatLoop, .countingLoop, .leaveLoop,
  .procedure, .procedureCall, .newCog, .number, .arithmetic, .limit, .stepVariable, .random,
  .boolean, .compare, .logic, .negate, .text, .readVariable, .assign, .arrayInit, .arrayGet,
  .arraySet, .arrayFill, .arrayClear, .print, .printValue, .printNewline, .makePin, .makePinInput,
  .checkPin, .checkPinInput, .setPins, .pwmStart, .pwmSet, .pwmStop, .frequencyOut, .soundInit,
  .soundPlay, .wavPlay, .wavVolume, .wavStop, .cardInit, .fileOpen, .fileRead, .fileWrite,
  .fileClose, .servoMove, .servoSpeed, .servoRamp, .memoryWrite, .memoryRead, .driveInit,
  .driveGoto, .driveSpeed, .driveStop, .scribblerDrive, .scribblerStop, .scribblerLed,
  .scribblerPlay, .scribblerLine, .scribblerObstacle]

/-- The kind that a type name stands for. -/
def ofName? (name : String) : Option Kind := all.find? (·.name == name)

theorem mem_all (k : Kind) : k ∈ all := by
  cases k <;> decide

/-- A kind is found by its own name. -/
theorem ofName?_name (k : Kind) : ofName? k.name = some k := by
  cases k <;> decide

/-- A name stands for a kind exactly if it is the kind's name. -/
theorem ofName?_eq_some_iff {name : String} {k : Kind} :
    ofName? name = some k ↔ k.name = name := by
  constructor
  · intro h
    simpa using List.find?_some h
  · rintro rfl
    exact ofName?_name k

/-- A table that lists every kind by its name finds what `ofName?` finds. -/
theorem lookup_map_name (kinds : List Kind) (name : String) :
    (kinds.map fun kind => (kind.name, kind)).lookup name = kinds.find? (·.name == name) := by
  induction kinds with
  | nil => rfl
  | cons kind kinds ih => rw [List.map_cons, List.lookup_cons, List.find?_cons, ih, BEq.comm]

/-- A table has no entry of a name exactly if it does not list the name. -/
theorem lookup_eq_none_iff {types : List (String × Kind)} {name : String} :
    types.lookup name = none ↔ name ∉ types.map Prod.fst := by
  rw [List.lookup_eq_none_iff]
  constructor
  · intro h hmem
    obtain ⟨entry, hentry, rfl⟩ := List.mem_map.1 hmem
    exact bne_iff_ne.1 (h entry hentry) rfl
  · intro h entry hentry
    exact bne_iff_ne.2 fun heq => h (heq ▸ List.mem_map_of_mem hentry)

end Kind

end BlockCompiler
