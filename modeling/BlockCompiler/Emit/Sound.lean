import BlockCompiler.Emit.Card

set_option autoImplicit false

/-! # Sound

The mixer with its channels, and the player of wave files on the card. -/

namespace BlockCompiler.Emit

variable (p : Project) (b : Block)

/-- Starts the mixer on two pins. -/
def startSound : Recipe String := do
  let left ← pin p b "PINL"
  let right ← pin p b "PINR"
  Recipe.ensure .includes "sound" "#include \"sound.h\""
  Recipe.ensure .globals "sound_handle" "sound *audio0;"
  Recipe.ensure .setups "sound_init" ("audio0 = sound_run(" ++ left ++ ", " ++ right ++ ");")
  return ""

/-- Starts the mixer, once in a program. -/
def soundInit (id : BlockId) : Recipe String :=
  initializer p id b .soundInit "sound initialize" (startSound p b)

/-- A channel of the mixer. -/
def soundChannel : String → String
  | "1" => "1"
  | "2" => "2"
  | "3" => "3"
  | _ => "0"

/-- A call of the mixer with a clamped value. -/
def soundCall (call channel : String) (greatest : Int) : Recipe String := do
  let amount ← clampedValue p b "VALUE" 0 greatest .anything
  return call ++ "(audio0, " ++ channel ++ ", " ++ amount ++ ");\n"

/-- Changes a channel of the mixer. -/
def soundPlay : Recipe String :=
  if p.has .soundInit then
    let channel := soundChannel (p.field b "CHANNEL")
    match p.field b "ACTION" with
    | "VOLUME" => soundCall p b "sound_volume" channel 127
    | "WAVE" => soundCall p b "sound_wave" channel 7
    | "STOP" => return "sound_volume(audio0, " ++ channel ++ ", 0);\n"
    | _ => soundCall p b "sound_freq" channel 20000
  else
    Recipe.warning b "You must use a sound initialize block at the beginning of your program!"

/-! ## Wave files -/

/-- The header of the wave player. -/
def includeWave : Recipe Unit := Recipe.ensure .includes "wavplayer" "#include \"wavplayer.h\""

/-- The part of a text in front of its first point. -/
def beforePoint (text : String) : String :=
  String.ofList (text.toList.takeWhile (· != '.'))

/-- Plays a wave file, whatever extension the user gave it. -/
def wavPlay : Recipe String := do
  match ← cardWarning? p b with
  | some line => return line
  | none =>
    match FileName.short (beforePoint (p.field b "FILENAME")) "wav" with
    | .error invalid => nameWarning b invalid
    | .ok name =>
      includeWave
      return "wav_play(\"" ++ name ++ "\");\n"

/-- Sets the volume of the player. -/
def wavVolume : Recipe String := do
  includeWave
  let volume ← clampedValue p b "VOLUME" 0 10 .anything
  return "wav_volume(" ++ volume ++ ");\n"

/-- Stops the player. -/
def wavStop : Recipe String := do
  includeWave
  return "wav_stop();\n"

end BlockCompiler.Emit
