import BlockCompiler.Variant.PinGroup

set_option autoImplicit false

/-! # The catalog of definitions

The definition of every kind of block. The texts for empty sockets live here and nowhere else. -/

namespace BlockCompiler

namespace Catalog

/-- A value socket. -/
def value (name default : String) : Input := ⟨name, .value default⟩

/-- A socket for a stack. -/
def stack (name : String) : Input := ⟨name, .statement⟩

/-- An input that only carries a label. -/
def label (name : String) : Input := ⟨name, .dummy⟩

/-- What can be done to a pin. -/
def pinActions : List (String × String) :=
  [("high", "HIGH"), ("low", "LOW"), ("toggle", "TOGGLE"), ("input", "INPUT"),
    ("reverse", "REVERSE")]

/-- What a memory cell holds. -/
def memoryTypes : List (String × String) :=
  [("number", "NUMBER"), ("byte", "BYTE"), ("text", "TEXT")]

/-- Whether a sensor's answer is taken as it is. -/
def conditions : List (String × String) := [("is", "IS"), ("is not", "IS_NOT")]

/-- The places of a robot's lights and sensors. -/
def locations : List (String × String) :=
  [("center", "CENTER"), ("left", "LEFT"), ("right", "RIGHT"), ("detected", "DETECTED")]

end Catalog

open Catalog in
/-- The definition of a kind; pin menus follow the board. -/
def Kind.definition (board : Board) (kind : Kind) : Definition :=
  match kind with
  | .comment => { kind, shape := .statement, fields := [Field.text "COMMENT_TEXT" ""] }
  | .customCode =>
    { kind
      shape := .statement
      fields := [
        Field.dropdown "LOCATION" [("main", "main"), ("includes", "includes"),
          ("globals", "globals"), ("setups", "setups"), ("functions", "functions")],
        Field.text "CODE" ""] }
  | .pause => { kind, shape := .statement, inputs := [value "PAUSE_TIME" "500"] }
  | .systemCounter => { kind, shape := .value }
  | .branch =>
    { kind
      shape := .statement
      inputs := [value "IF0" "0", stack "DO0", stack "ELSE"] }
  | .repeatLoop =>
    { kind
      shape := .statement
      inputs := [value "TIMES" "10", value "REPEAT_CONDITION" "1", stack "DO"]
      fields := [
        Field.dropdown "TYPE" [("forever", "FOREVER"), ("x times", "TIMES"), ("while", "WHILE"),
          ("until", "UNTIL")]] }
  | .countingLoop =>
    { kind
      shape := .statement
      inputs := [value "START" "1", value "END" "10", value "STEP" "1", stack "DO"]
      fields := [Field.variableName "VAR" "i"] }
  | .leaveLoop => { kind, shape := .statement }
  | .procedure =>
    { kind
      shape := .definition
      inputs := [stack "STACK"]
      fields := [Field.text "NAME" "my_function"] }
  | .procedureCall => { kind, shape := .statement, fields := [Field.text "NAME" "my_function"] }
  | .newCog =>
    { kind
      shape := .statement
      inputs := [stack "METHOD"]
      fields := [Field.number "STACK_SIZE" "128"] }
  | .number => { kind, shape := .value, fields := [Field.number "NUM" "0"] }
  | .arithmetic =>
    { kind
      shape := .value
      inputs := [value "A" "0", value "B" "0"]
      fields := [
        Field.dropdown "OP" [("+", "ADD"), ("-", "MINUS"), ("×", "MULTIPLY"), ("÷", "DIVIDE"),
          ("%", "MODULUS"), ("^", "POWER")]] }
  | .limit =>
    { kind
      shape := .value
      inputs := [value "A" "0", value "B" "0"]
      fields := [Field.dropdown "OP" [("lowest of", "MIN"), ("highest of", "MAX")]] }
  | .stepVariable =>
    { kind
      shape := .statement
      fields := [
        Field.dropdown "OP" [("increment", "++"), ("decrement", "--")],
        Field.variableName "VAR" "item"] }
  | .random => { kind, shape := .value, inputs := [value "A" "1", value "B" "100"] }
  | .boolean =>
    { kind
      shape := .value
      fields := [Field.dropdown "BOOL" [("true", "TRUE"), ("false", "FALSE")]] }
  | .compare =>
    { kind
      shape := .value
      inputs := [value "A" "0", value "B" "0"]
      fields := [
        Field.dropdown "OP" [("=", "EQ"), ("≠", "NEQ"), ("<", "LT"), ("≤", "LTE"), (">", "GT"),
          ("≥", "GTE")]] }
  | .logic =>
    { kind
      shape := .value
      inputs := [value "A" "0", value "B" "0"]
      fields := [Field.dropdown "OP" [("and", "AND"), ("or", "OR")]] }
  | .negate => { kind, shape := .value, inputs := [value "BOOL" "0"] }
  | .text => { kind, shape := .value, fields := [Field.text "TEXT" ""] }
  | .readVariable => { kind, shape := .value, fields := [Field.variableName "VAR" "item"] }
  | .assign =>
    { kind
      shape := .statement
      inputs := [value "VALUE" "0"]
      fields := [Field.variableName "VAR" "item"] }
  | .arrayInit =>
    { kind
      shape := .statement
      fields := [Field.text "VAR" "list", Field.number "NUM" "10"] }
  | .arrayGet =>
    { kind
      shape := .value
      inputs := [value "NUM" "0"]
      fields := [Field.text "VAR" "list"] }
  | .arraySet =>
    { kind
      shape := .statement
      inputs := [value "NUM" "0", value "VALUE" "0"]
      fields := [Field.text "VAR" "list"] }
  | .arrayFill =>
    { kind
      shape := .statement
      fields := [Field.text "VAR" "list", Field.text "NUM" "0"] }
  | .arrayClear => { kind, shape := .statement, fields := [Field.text "VAR" "list"] }
  | .print =>
    { kind
      shape := .statement
      inputs := [value "MESSAGE" "\"\""]
      fields := [Field.dropdown "NEWLINE" [("no", "FALSE"), ("yes", "TRUE")]] }
  | .printValue =>
    { kind
      shape := .statement
      inputs := [value "VALUE" "0"]
      fields := [
        Field.dropdown "FORMAT" [("decimal", "DECIMAL"), ("hexadecimal", "HEX"), ("binary", "BIN"),
          ("character", "CHAR"), ("floating point", "FLOAT")],
        Field.dropdown "NEWLINE" [("no", "FALSE"), ("yes", "TRUE")]] }
  | .printNewline => { kind, shape := .statement }
  | .makePin =>
    { kind
      shape := .statement
      fields := [Field.pin board "PIN", Field.dropdown "ACTION" pinActions] }
  | .makePinInput =>
    { kind
      shape := .statement
      inputs := [value "PIN" "0"]
      fields := [Field.dropdown "ACTION" pinActions] }
  | .checkPin => { kind, shape := .value, fields := [Field.pin board "PIN"] }
  | .checkPinInput => { kind, shape := .value, inputs := [value "PIN" "0"] }
  | .setPins => (PinGroup.mk .state 0 0).definition board
  | .pwmStart => { kind, shape := .statement, inputs := [value "PERIOD" "100"] }
  | .pwmSet =>
    { kind
      shape := .statement
      inputs := [value "DUTY_CYCLE" "50"]
      fields := [Field.pin board "PIN", Field.dropdown "CHANNEL" [("A", "0"), ("B", "1")]] }
  | .pwmStop => { kind, shape := .statement }
  | .frequencyOut =>
    { kind
      shape := .statement
      inputs := [value "DURATION" "500", value "FREQUENCY" "3000"]
      fields := [Field.pin board "PIN"] }
  | .soundInit =>
    { kind
      shape := .statement
      fields := [Field.pin board "PINL", Field.pin board "PINR"] }
  | .soundPlay =>
    { kind
      shape := .statement
      inputs := [value "VALUE" "0"]
      fields := [
        Field.dropdown "ACTION" [("frequency", "FREQ"), ("volume", "VOLUME"), ("waveform", "WAVE"),
          ("stop", "STOP")],
        Field.dropdown "CHANNEL" [("0", "0"), ("1", "1"), ("2", "2"), ("3", "3")]] }
  | .wavPlay => { kind, shape := .statement, fields := [Field.text "FILENAME" "song"] }
  | .wavVolume => { kind, shape := .statement, inputs := [value "VOLUME" "5"] }
  | .wavStop => { kind, shape := .statement }
  | .cardInit =>
    { kind
      shape := .statement
      fields := [
        Field.pin board "DO", Field.pin board "CLK", Field.pin board "DI", Field.pin board "CS"] }
  | .fileOpen =>
    { kind
      shape := .statement
      fields := [
        Field.text "FILENAME" "test.txt",
        Field.dropdown "MODE" [("read", "r"), ("write", "w"), ("append", "a")]] }
  | .fileRead =>
    { kind
      shape := .statement
      inputs := [value "SIZE" "10"]
      fields := [Field.variableName "VAR" "buffer"] }
  | .fileWrite => { kind, shape := .statement, inputs := [value "VALUE" "\"\""] }
  | .fileClose => { kind, shape := .statement }
  | .servoMove =>
    { kind
      shape := .statement
      inputs := [value "ANGLE" "90"]
      fields := [Field.pin board "PIN"] }
  | .servoSpeed =>
    { kind
      shape := .statement
      inputs := [value "SPEED" "0"]
      fields := [Field.pin board "PIN"] }
  | .servoRamp =>
    { kind
      shape := .statement
      inputs := [value "RAMPSTEP" "50"]
      fields := [Field.pin board "PIN"] }
  | .memoryWrite =>
    { kind
      shape := .statement
      inputs := [value "ADDRESS" "0", value "VALUE" "0"]
      fields := [Field.dropdown "TYPE" memoryTypes] }
  | .memoryRead =>
    { kind
      shape := .statement
      inputs := [value "ADDRESS" "0"]
      fields := [Field.dropdown "TYPE" memoryTypes, Field.variableName "VAR" "item"] }
  | .driveInit =>
    { kind
      shape := .statement
      fields := [
        Field.dropdown "BOT" [("ActivityBot", "ACTIVITYBOT"), ("Arlo", "ARLO"),
          ("Servo differential drive", "SERVO_DIFF")],
        Field.pin board "LEFT", Field.pin board "RIGHT"] }
  | .driveGoto => { kind, shape := .statement, inputs := [value "LEFT" "64", value "RIGHT" "64"] }
  | .driveSpeed => { kind, shape := .statement, inputs := [value "LEFT" "64", value "RIGHT" "64"] }
  | .driveStop => { kind, shape := .statement }
  | .scribblerDrive =>
    { kind
      shape := .statement
      inputs := [
        value "LEFT_MOTOR_SPEED" "100", value "RIGHT_MOTOR_SPEED" "100",
        value "MOTOR_DURATION" "0"] }
  | .scribblerStop => { kind, shape := .statement }
  | .scribblerLed =>
    { kind
      shape := .statement
      fields := [
        Field.dropdown "LED" [("left", "LEFT"), ("center", "CENTER"), ("right", "RIGHT")],
        Field.text "COLOR" "#000000"] }
  | .scribblerPlay =>
    { kind
      shape := .statement
      inputs := [value "FREQUENCY" "440", value "DURATION" "250"]
      fields := [Field.number "VOLUME" "50"] }
  | .scribblerLine =>
    { kind
      shape := .value
      fields := [
        Field.dropdown "LINE_CONDITION" conditions, Field.dropdown "LOCATION" locations,
        Field.dropdown "COLOR" [("black", "BLACK"), ("white", "WHITE")]] }
  | .scribblerObstacle =>
    { kind
      shape := .value
      inputs := [label "LABEL"]
      fields := [
        Field.dropdown "OBSTACLE_CONDITION" conditions, Field.dropdown "LOCATION" locations] }

/-- The types that have a definition, by their names. -/
def Definition.types : List (String × Kind) := [
    ("comment", .comment), ("custom_code", .customCode), ("pause", .pause),
    ("system_counter", .systemCounter), ("controls_if", .branch),
    ("controls_repeat", .repeatLoop), ("controls_for", .countingLoop),
    ("controls_break", .leaveLoop), ("procedures_defnoreturn", .procedure),
    ("procedures_callnoreturn", .procedureCall), ("cog_new", .newCog), ("math_number", .number),
    ("math_arithmetic", .arithmetic), ("math_limit", .limit), ("math_crement", .stepVariable),
    ("math_random", .random), ("logic_boolean", .boolean), ("logic_compare", .compare),
    ("logic_operation", .logic), ("logic_negate", .negate), ("string_type_block", .text),
    ("variables_get", .readVariable), ("variables_set", .assign), ("array_init", .arrayInit),
    ("array_get", .arrayGet), ("array_set", .arraySet), ("array_fill", .arrayFill),
    ("array_clear", .arrayClear), ("console_print", .print),
    ("console_print_variables", .printValue), ("console_newline", .printNewline),
    ("make_pin", .makePin), ("make_pin_input", .makePinInput), ("check_pin", .checkPin),
    ("check_pin_input", .checkPinInput), ("set_pins", .setPins), ("pwm_start", .pwmStart),
    ("pwm_set", .pwmSet), ("pwm_stop", .pwmStop), ("base_freqout", .frequencyOut),
    ("sound_init", .soundInit), ("sound_play", .soundPlay), ("wav_play", .wavPlay),
    ("wav_volume", .wavVolume), ("wav_stop", .wavStop), ("sd_init", .cardInit),
    ("sd_open", .fileOpen), ("sd_read", .fileRead), ("sd_write", .fileWrite),
    ("sd_close", .fileClose), ("servo_move", .servoMove), ("servo_speed", .servoSpeed),
    ("servo_set_ramp", .servoRamp), ("eeprom_write", .memoryWrite), ("eeprom_read", .memoryRead),
    ("ab_drive_init", .driveInit), ("ab_drive_goto", .driveGoto), ("ab_drive_speed", .driveSpeed),
    ("ab_drive_stop", .driveStop), ("scribbler_drive", .scribblerDrive),
    ("scribbler_stop", .scribblerStop), ("scribbler_led", .scribblerLed),
    ("scribbler_play", .scribblerPlay), ("scribbler_simple_line", .scribblerLine),
    ("scribbler_simple_obstacle", .scribblerObstacle)]

/-- The definition of a type. -/
def Definition.ofType? (type : String) (board : Board) : Option Definition :=
  (types.lookup type).map (Kind.definition board)

/-- The types with a definition are those that are known. -/
theorem Definition.lookup_types (type : String) : types.lookup type = Kind.ofName? type :=
  Kind.lookup_map_name Kind.all type

theorem Definition.ofType?_eq (type : String) (board : Board) :
    ofType? type board = (Kind.ofName? type).map (Kind.definition board) := by
  rw [ofType?, lookup_types]

end BlockCompiler
