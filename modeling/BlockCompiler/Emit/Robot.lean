import BlockCompiler.Color
import BlockCompiler.Emit.Socket

set_option autoImplicit false

/-! # Robots

Drives that are set up by an initializer block, and the robot that is a board of its own. -/

namespace BlockCompiler.Emit

/-! ## Drives -/

/-- A drive that the drive blocks know. -/
inductive Drive where
  | activityBot
  | arlo
  | servoDifferential
  deriving Repr, DecidableEq

namespace Drive

/-- The drive that a menu value names. -/
def ofField : String → Drive
  | "ARLO" => .arlo
  | "SERVO_DIFF" => .servoDifferential
  | _ => .activityBot

/-- The include line of the drive's library. -/
def header : Drive → String
  | .activityBot => "#include \"abdrive.h\""
  | .arlo => "#include \"arlodrive.h\""
  | .servoDifferential => "#include \"servodiffdrive.h\""

/-- The greatest speed of either wheel. -/
def topSpeed : Drive → Int
  | .activityBot => 128
  | .arlo => 200
  | .servoDifferential => 100

/-- The library call that sets both speeds. -/
def speedCall : Drive → String
  | .servoDifferential => "drive_speeds"
  | _ => "drive_speed"

end Drive

variable (p : Project) (b : Block)

/-- The drive that the first initializer in program order sets up. -/
def configuredDrive? : Option Drive :=
  (p.blocksInOrder .driveInit).head?.map fun init =>
    Drive.ofField (init.fieldOr "BOT" "ACTIVITYBOT")

/-- Code that depends on the drive; a warning if none is set up. -/
def withDrive (code : Drive → Recipe String) : Recipe String :=
  match configuredDrive? p with
  | some drive => code drive
  | none =>
    Recipe.warning b "You must use a Robot initialize block at the beginning of your program!"

/-- The pins of a drive's servos. -/
def drivePins : Recipe Unit := do
  let left ← pin p b "LEFT"
  let right ← pin p b "RIGHT"
  Recipe.ensure .setups "robot_pins" ("drive_pins(" ++ left ++ ", " ++ right ++ ");")

/-- Sets up a drive. -/
def startDrive : Recipe String := do
  let drive := Drive.ofField (p.field b "BOT")
  Recipe.ensure .includes "robot_drive" drive.header
  if drive = .servoDifferential then
    drivePins p b
    return ""
  else
    return ""

/-- Sets up a drive, once in a program. -/
def driveInit (id : BlockId) : Recipe String :=
  initializer p id b .driveInit "Robot initialize" (startDrive p b)

/-- Drives both wheels a distance. -/
def driveGoto : Recipe String :=
  withDrive p b fun drive =>
    if drive = .servoDifferential then
      Recipe.warning b
        "The servo differential drive cannot drive a distance; use the drive speed block."
    else do
      let left ← value p b "LEFT" .anything
      let right ← value p b "RIGHT" .anything
      return "drive_goto(" ++ left ++ ", " ++ right ++ ");\n"

/-- Sets the speeds of both wheels. -/
def driveSpeed : Recipe String :=
  withDrive p b fun drive => do
    let left ← clampedValue p b "LEFT" (-drive.topSpeed) drive.topSpeed .anything
    let right ← clampedValue p b "RIGHT" (-drive.topSpeed) drive.topSpeed .anything
    return drive.speedCall ++ "(" ++ left ++ ", " ++ right ++ ");\n"

/-- Stops both wheels. -/
def driveStop : Recipe String :=
  withDrive p b fun drive => return drive.speedCall ++ "(0, 0);\n"

/-! ## Scribbler -/

/-- Registers the robot's library and its start; a warning on any other board. -/
def scribblerWarning? : Recipe (Option String) :=
  if p.board = .scribbler3 then do
    Recipe.ensure .includes "s3" "#include \"s3.h\""
    Recipe.ensure .setups "s3_setup" "s3_setup();\npause(100);"
    return none
  else do
    let line ← Recipe.warning b "Scribbler blocks can only be used with the Scribbler 3 robot!"
    return some line

/-- Statements for the robot; a warning on any other board. -/
def onScribbler (code : Recipe String) : Recipe String := do
  match ← scribblerWarning? p b with
  | some line => return line
  | none => code

/-- A value from the robot; on any other board zero behind a warning. -/
def fromScribbler (code : Recipe Operand) : Recipe Operand := do
  match ← scribblerWarning? p b with
  | some line => return .atom (Comment.beforeValue line "0")
  | none => code

/-- A place on the robot. -/
def robotPlace : String → String
  | "LEFT" => "S3_LEFT"
  | "RIGHT" => "S3_RIGHT"
  | "DETECTED" => "S3_DETECTED"
  | _ => "S3_CENTER"

/-- Whether a sensor's answer is taken as it is. -/
def sensorCondition : String → String
  | "IS_NOT" => "S3_IS_NOT"
  | _ => "S3_IS"

/-- Drives both motors for a time. -/
def scribblerDrive : Recipe String :=
  onScribbler p b do
    let left ← clampedValue p b "LEFT_MOTOR_SPEED" (-100) 100 .anything
    let right ← clampedValue p b "RIGHT_MOTOR_SPEED" (-100) 100 .anything
    let duration ← clampedValue p b "MOTOR_DURATION" 0 15000 .anything
    return "s3_motorSet(" ++ left ++ ", " ++ right ++ ", " ++ duration ++ ");\n"

/-- Stops both motors. -/
def scribblerStop : Recipe String := onScribbler p b (return "s3_motorSet(0, 0, 0);\n")

/-- A light in a color; a light without one is turned off, with a warning. -/
def scribblerLed : Recipe String :=
  onScribbler p b do
    let place := robotPlace (p.field b "LED")
    match Color.literal (p.field b "COLOR") with
    | .ok color => return "s3_setLED(" ++ place ++ ", " ++ color ++ ");\n"
    | .error invalid =>
      let line ← Recipe.warning b (invalid.message ++ "; the LED is turned off.")
      return line ++ "s3_setLED(" ++ place ++ ", 0x000000);\n"

/-- A volume held between 0 and 100; 50 if it is no number. -/
def volume (text : String) : Int :=
  match Text.signed? 10 (Text.trim text.toList) with
  | some n => Text.clamp n 0 100
  | none => 50

/-- Plays a note. -/
def scribblerPlay : Recipe String :=
  onScribbler p b do
    let frequency ← clampedValue p b "FREQUENCY" 0 20000 .anything
    let duration ← clampedValue p b "DURATION" 0 8000 .anything
    return "s3_setVolume(" ++ toString (volume (p.field b "VOLUME")) ++ ");\ns3_playNote(" ++
      frequency ++ ", 0, " ++ duration ++ ");\n"

/-- Asks the line sensor. -/
def scribblerLine : Recipe Operand :=
  fromScribbler p b do
    let color := if p.field b "COLOR" == "WHITE" then "S3_WHITE" else "S3_BLACK"
    return .atom ("s3_simpleLine(" ++ sensorCondition (p.field b "LINE_CONDITION") ++ ", " ++
      robotPlace (p.field b "LOCATION") ++ ", " ++ color ++ ")")

/-- Asks the obstacle sensor. -/
def scribblerObstacle : Recipe Operand :=
  fromScribbler p b do
    return .atom ("s3_simpleObstacle(" ++ sensorCondition (p.field b "OBSTACLE_CONDITION") ++
      ", " ++ robotPlace (p.field b "LOCATION") ++ ")")

end BlockCompiler.Emit
