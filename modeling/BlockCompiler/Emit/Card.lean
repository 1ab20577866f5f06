import BlockCompiler.Emit.Variable
import BlockCompiler.FileName

set_option autoImplicit false

/-! # Files on a card

A card has to be mounted before it is used. A board with a socket of its own mounts it by itself;
on any other board an initializer block has to. -/

namespace BlockCompiler.Emit

/-- The key of the setup that mounts the card. -/
def cardSetup : String := "sd_card"

/-- Declares the handle of the open file. -/
def declareFile : Recipe Unit := Recipe.ensure .globals "sd_file" "FILE *fp;"

variable (p : Project) (b : Block)

/-- A warning if the card is not mounted before the block runs. -/
def cardWarning? : Recipe (Option String) :=
  if p.has .cardInit then
    return none
  else if p.board.hasCardSocket then do
    Recipe.ensure .setups cardSetup "sd_mount(22, 23, 24, 25);"
    return none
  else do
    let line ← Recipe.warning b
      "You must use a SD initialize block at the beginning of your program!"
    return some line

/-- A warning if the card is not mounted or no block opens a file. -/
def fileWarning? : Recipe (Option String) := do
  match ← cardWarning? p b with
  | some line => return some line
  | none =>
    if p.has .fileOpen then
      declareFile
      return none
    else
      let line ← Recipe.warning b "You must open a file with the SD file open block first!"
      return some line

/-- Mounts the card on pins of the user's choice. -/
def mountCard : Recipe String := do
  let dataOut ← pin p b "DO"
  let clock ← pin p b "CLK"
  let dataIn ← pin p b "DI"
  let select ← pin p b "CS"
  Recipe.perform (.replaceSetup cardSetup
    ("sd_mount(" ++ ", ".intercalate [dataOut, clock, dataIn, select] ++ ");"))
  return ""

/-- Mounts the card, once in a program. -/
def cardInit (id : BlockId) : Recipe String :=
  initializer p id b .cardInit "SD initialize" (mountCard p b)

/-- A warning about a name that the card cannot hold. -/
def nameWarning (invalid : FileName.Invalid) : Recipe String :=
  Recipe.warning b (invalid.message ++ "!")

/-- The mode of an open call. -/
def fileMode : String → String
  | "w" => "w"
  | "a" => "a"
  | _ => "r"

/-- Opens a file. -/
def fileOpen : Recipe String := do
  match ← cardWarning? p b with
  | some line => return line
  | none =>
    match FileName.short (p.field b "FILENAME") "txt" with
    | .error invalid => nameWarning b invalid
    | .ok name =>
      declareFile
      return "fp = fopen(\"" ++ name ++ "\", \"" ++ fileMode (p.field b "MODE") ++ "\");\n"

/-- Asks for a buffer that holds what is read and the zero behind it, if the size is a literal. -/
def reserveRead (name size : String) : Recipe Unit :=
  match Text.intLiteral? size with
  | some n =>
    if 0 < n then Recipe.perform (.setLength name (n.toNat + 1)) else return
  | none => return

/-- Reads text into a variable. -/
def fileRead : Recipe String := do
  match ← fileWarning? p b with
  | some line => return line
  | none =>
    let size ← value p b "SIZE" .anything
    let name := variableName p b
    Recipe.perform (.setType name .char)
    reserveRead name size
    return "fread(" ++ name ++ ", 1, " ++ size ++ ", fp);\n"

/-- The length of a text in C. -/
def textLength (text : String) : Recipe String :=
  match Text.literalBody? text with
  | some body => return toString (Text.literalLength body)
  | none => do
    includeStrings
    return "strlen(" ++ text ++ ")"

/-- Writes a text. -/
def fileWrite : Recipe String := do
  match ← fileWarning? p b with
  | some line => return line
  | none =>
    let text ← value p b "VALUE" .anything
    let length ← textLength text
    return "fwrite(" ++ text ++ ", 1, " ++ length ++ ", fp);\n"

/-- Closes the file. -/
def fileClose : Recipe String := do
  match ← fileWarning? p b with
  | some line => return line
  | none => return "fclose(fp);\n"

end BlockCompiler.Emit
