import BlockCompiler.Emit.Socket
import BlockCompiler.Variant.PinGroup

set_option autoImplicit false

/-! # Pins

Single pins, runs of pins, pulse-width modulation, tones and servos. -/

namespace BlockCompiler.Emit

variable (p : Project) (b : Block)

/-- The greatest signed 32-bit integer. -/
def greatestInt32 : Int := 2147483647

/-- The library call of a pin action. -/
def pinCall : String → String
  | "LOW" => "low"
  | "TOGGLE" => "toggle"
  | "INPUT" => "input"
  | "REVERSE" => "reverse"
  | _ => "high"

/-- Does something to a pin. -/
def makePin : Recipe String := do
  let number ← pin p b "PIN"
  return pinCall (p.field b "ACTION") ++ "(" ++ number ++ ");\n"

/-- Reads a pin. -/
def checkPin : Recipe Operand := do
  let number ← pin p b "PIN"
  return .atom ("input(" ++ number ++ ")")

/-! ## Runs of pins -/

/-- The library call for a run of pins. -/
def pinsCall : PinAction → String
  | .state => "set_outputs"
  | .direction => "set_directions"

/-- One binary digit for every pin of a run, the highest pin first. -/
def pinBits (g : PinGroup) : String :=
  String.ofList (g.pins.reverse.map fun number => if PinGroup.isSet b number then '1' else '0')

/-- Writes a run of pins at once. -/
def setPins : Recipe String :=
  let g := PinGroup.ofBlock b
  return pinsCall g.action ++ "(" ++ toString g.last ++ ", " ++ toString g.first ++ ", 0b" ++
    pinBits b g ++ ");\n"

/-! ## Pulse-width modulation -/

/-- Starts the modulation with a period. -/
def startPwm : Recipe String := do
  let period ← clampedValue p b "PERIOD" 1 greatestInt32 .anything
  return "pwm_start(" ++ period ++ ");\n"

/-- Starts the modulation, once in a program. -/
def pwmStart (id : BlockId) : Recipe String :=
  initializer p id b .pwmStart "PWM initialize" (startPwm p b)

/-- Sets the duty cycle of a channel. -/
def pwmSet : Recipe String :=
  if p.has .pwmStart then do
    let number ← pin p b "PIN"
    let channel := if p.field b "CHANNEL" == "1" then "1" else "0"
    let duty ← clampedValue p b "DUTY_CYCLE" 0 100 .anything
    return "pwm_set(" ++ number ++ ", " ++ channel ++ ", " ++ duty ++ ");\n"
  else
    Recipe.warning b "You must use a PWM initialize block at the beginning of your program!"

/-- Stops the modulation. -/
def pwmStop : Recipe String := return "pwm_stop();\n"

/-- Plays a tone on a pin. -/
def frequencyOut : Recipe String := do
  let number ← pin p b "PIN"
  let duration ← clampedValue p b "DURATION" 0 greatestInt32 .anything
  let frequency ← clampedValue p b "FREQUENCY" 0 20000 .anything
  return "freqout(" ++ number ++ ", " ++ duration ++ ", " ++ frequency ++ ");\n"

/-! ## Servos -/

/-- The header of the servo library. -/
def includeServo : Recipe Unit := Recipe.ensure .includes "servo" "#include \"servo.h\""

/-- A literal angle in tenths of a degree. -/
def tenths (degrees : Int) : String := toString (Text.clamp degrees 0 180 * 10)

/-- The angle of a servo in tenths of a degree. An angle that is only known when the program runs is
multiplied then. -/
def servoAngle : Recipe String := do
  match ← operand p b "ANGLE" with
  | some found =>
    match Text.intLiteral? found.text with
    | some n => return tenths n
    | none => return found.within .multiplicative ++ " * 10"
  | none => return tenths ((Text.intLiteral? (p.socketDefault b "ANGLE")).getD 90)

/-- Turns a servo to an angle. -/
def servoMove : Recipe String := do
  includeServo
  let number ← pin p b "PIN"
  let angle ← servoAngle p b
  return "servo_angle(" ++ number ++ ", " ++ angle ++ ");\n"

/-- Runs a continuous servo. -/
def servoSpeed : Recipe String := do
  includeServo
  let number ← pin p b "PIN"
  let speed ← clampedValue p b "SPEED" (-200) 200 .anything
  return "servo_speed(" ++ number ++ ", " ++ speed ++ ");\n"

/-- Limits how fast a servo changes. -/
def servoRamp : Recipe String := do
  includeServo
  let number ← pin p b "PIN"
  let step ← clampedValue p b "RAMPSTEP" 0 100 .anything
  return "servo_setramp(" ++ number ++ ", " ++ step ++ ");\n"

end BlockCompiler.Emit
