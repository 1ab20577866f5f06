import BlockCompiler.Emit.Array
import BlockCompiler.Emit.Flow
import BlockCompiler.Emit.Memory
import BlockCompiler.Emit.Operator
import BlockCompiler.Emit.Pin
import BlockCompiler.Emit.Procedure
import BlockCompiler.Emit.Robot
import BlockCompiler.Emit.Sound
import BlockCompiler.Emit.Text

set_option autoImplicit false

/-! # The catalog of recipes

The recipe of every kind of block. A kind yields either statements or a value, as its definition
says. -/

namespace BlockCompiler

/-- How the code of a block is made. -/
inductive Emitter where
  | statement (code : Recipe String)
  | value (code : Recipe Operand)

/-- The recipe of the block's fragment. -/
def Emitter.fragment : Emitter → Recipe Fragment
  | .statement code => do
    let text ← code
    return .statement text
  | .value code => do
    let operand ← code
    return .expression operand

namespace Emit

/-- The emitter of block number `id`, which is of the given kind. -/
def emitter (p : Project) (id : BlockId) (b : Block) : Kind → Emitter
  | .comment => .statement (comment p b)
  | .customCode => .statement (customCode p b)
  | .pause => .statement (pause p b)
  | .systemCounter => .value systemCounter
  | .branch => .statement (branch p b)
  | .repeatLoop => .statement (repeatLoop p b)
  | .countingLoop => .statement (countingLoop p b)
  | .leaveLoop => .statement leaveLoop
  | .procedure => .statement (procedure p b)
  | .procedureCall => .statement (procedureCall p b)
  | .newCog => .statement (newCog p b)
  | .number => .value (number p b)
  | .arithmetic => .value (arithmetic p b)
  | .limit => .value (limit p b)
  | .stepVariable => .statement (stepVariable p b)
  | .random => .value (random p b)
  | .boolean => .value (boolean p b)
  | .compare => .value (compare p b)
  | .logic => .value (logic p b)
  | .negate => .value (negate p b)
  | .text => .value (text p b)
  | .readVariable => .value (readVariable p b)
  | .assign => .statement (assign p b)
  | .arrayInit => .statement (arrayInit p b)
  | .arrayGet => .value (arrayGet p b)
  | .arraySet => .statement (arraySet p b)
  | .arrayFill => .statement (arrayFill p b)
  | .arrayClear => .statement (arrayClear p b)
  | .print => .statement (print p b)
  | .printValue => .statement (printValue p b)
  | .printNewline => .statement printNewline
  | .makePin => .statement (makePin p b)
  | .makePinInput => .statement (makePin p b)
  | .checkPin => .value (checkPin p b)
  | .checkPinInput => .value (checkPin p b)
  | .setPins => .statement (setPins b)
  | .pwmStart => .statement (pwmStart p b id)
  | .pwmSet => .statement (pwmSet p b)
  | .pwmStop => .statement pwmStop
  | .frequencyOut => .statement (frequencyOut p b)
  | .soundInit => .statement (soundInit p b id)
  | .soundPlay => .statement (soundPlay p b)
  | .wavPlay => .statement (wavPlay p b)
  | .wavVolume => .statement (wavVolume p b)
  | .wavStop => .statement wavStop
  | .cardInit => .statement (cardInit p b id)
  | .fileOpen => .statement (fileOpen p b)
  | .fileRead => .statement (fileRead p b)
  | .fileWrite => .statement (fileWrite p b)
  | .fileClose => .statement (fileClose p b)
  | .servoMove => .statement (servoMove p b)
  | .servoSpeed => .statement (servoSpeed p b)
  | .servoRamp => .statement (servoRamp p b)
  | .memoryWrite => .statement (memoryWrite p b)
  | .memoryRead => .statement (memoryRead p b)
  | .driveInit => .statement (driveInit p b id)
  | .driveGoto => .statement (driveGoto p b)
  | .driveSpeed => .statement (driveSpeed p b)
  | .driveStop => .statement (driveStop p b)
  | .scribblerDrive => .statement (scribblerDrive p b)
  | .scribblerStop => .statement (scribblerStop p b)
  | .scribblerLed => .statement (scribblerLed p b)
  | .scribblerPlay => .statement (scribblerPlay p b)
  | .scribblerLine => .value (scribblerLine p b)
  | .scribblerObstacle => .value (scribblerObstacle p b)

/-- A warning in place of the code of a block whose type is unknown. -/
def unknownType (b : Block) : Recipe String :=
  Recipe.warning b ("Unknown block type \"" ++ b.type ++ "\"")

/-- The types that have a recipe, by their names. -/
def types : List (String × Kind) := [
    ("comment", .comment), ("custom_code", .customCode), ("pause", .pause),
    ("system_counter", .systemCounter), ("controls_if", .branch),
    ("controls_repeat", .repeatLoop), ("controls_for", .countingLoop),
    ("controls_break", .leaveLoop), ("procedures_defnoreturn", .procedure),
    ("procedures_callnoreturn", .procedureCall), ("cog_new", .newCog), ("math_number", .number),
    ("math_arithmetic", .arithmetic), ("math_limit", .limit), ("math_crement", .stepVariable),
    ("math_random", .random), ("logic_boolean", .boolean), ("logic_compare", .compare),
    ("logic_operation", .logic), ("logic_negate", .negate), ("string_type_block", .text),
    ("variables_get", .readVariable), ("variables_set", .assign), ("array_init", .arrayInit),
    ("array_get", .arrayGet), ("array_set", .arraySet), ("array_fill", .arrayFill),
    ("array_clear", .arrayClear), ("console_print", .print),
    ("console_print_variables", .printValue), ("console_newline", .printNewline),
    ("make_pin", .makePin), ("make_pin_input", .makePinInput), ("check_pin", .checkPin),
    ("check_pin_input", .checkPinInput), ("set_pins", .setPins), ("pwm_start", .pwmStart),
    ("pwm_set", .pwmSet), ("pwm_stop", .pwmStop), ("base_freqout", .frequencyOut),
    ("sound_init", .soundInit), ("sound_play", .soundPlay), ("wav_play", .wavPlay),
    ("wav_volume", .wavVolume), ("wav_stop", .wavStop), ("sd_init", .cardInit),
    ("sd_open", .fileOpen), ("sd_read", .fileRead), ("sd_write", .fileWrite),
    ("sd_close", .fileClose), ("servo_move", .servoMove), ("servo_speed", .servoSpeed),
    ("servo_set_ramp", .servoRamp), ("eeprom_write", .memoryWrite), ("eeprom_read", .memoryRead),
    ("ab_drive_init", .driveInit), ("ab_drive_goto", .driveGoto), ("ab_drive_speed", .driveSpeed),
    ("ab_drive_stop", .driveStop), ("scribbler_drive", .scribblerDrive),
    ("scribbler_stop", .scribblerStop), ("scribbler_led", .scribblerLed),
    ("scribbler_play", .scribblerPlay), ("scribbler_simple_line", .scribblerLine),
    ("scribbler_simple_obstacle", .scribblerObstacle)]

/-- The recipe of block number `id`. -/
def recipe (p : Project) (id : BlockId) (b : Block) : Recipe Fragment :=
  match types.lookup b.type with
  | some kind => (emitter p id b kind).fragment
  | none => (Emitter.statement (unknownType b)).fragment

/-- The types with a recipe are those that are known. -/
theorem lookup_types (type : String) : types.lookup type = Kind.ofName? type :=
  Kind.lookup_map_name Kind.all type

end Emit

end BlockCompiler
