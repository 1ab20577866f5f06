import BlockCompiler.Emit.Variable

set_option autoImplicit false

/-! # Memory that outlasts power

Numbers, bytes and texts in the upper half of the memory chip, above the program. Addresses are kept
inside that half when the program runs. -/

namespace BlockCompiler.Emit

/-- What a memory block stores. -/
inductive Stored where
  | number
  | byte
  | text
  deriving Repr, DecidableEq

/-- The content that a menu value names. -/
def Stored.ofField : String → Stored
  | "BYTE" => .byte
  | "TEXT" => .text
  | _ => .number

/-- Where the user's part of the memory starts. -/
def memoryBase : Int := 32768

/-- The last address of the user's part. -/
def memoryLast : Int := 7675

/-- How many characters a text read from memory may have. -/
def memoryTextLength : Nat := 128

/-- The function that keeps addresses inside the user's part. -/
def constrainFunction : String :=
  "int constrain(int _cVal, int _cMin, int _cMax) \x7b\n" ++
  "  if (_cVal < _cMin) _cVal = _cMin;\n" ++
  "  if (_cVal > _cMax) _cVal = _cMax;\n" ++
  "  return _cVal;\n" ++
  "\x7d"

variable (p : Project) (b : Block)

/-- The address in the chip for the user's address. -/
def memoryAddress : Recipe String := do
  Recipe.ensure .globals "constrain_function" constrainFunction
  let offset ← value p b "ADDRESS" .anything
  return "(" ++ toString memoryBase ++ " + constrain(" ++ offset ++ ", 0, " ++
    toString memoryLast ++ "))"

/-- The lowest eight bits of a value. -/
def byteText (found : Operand) : String :=
  match Text.intLiteral? found.text with
  | some n => toString (n % 256)
  | none => "(" ++ found.within .bitwiseAnd ++ " & 255)"

/-- The length of a text in C with the zero behind it. -/
def storedLength (text : String) : Recipe String :=
  match Text.literalBody? text with
  | some body => return toString (Text.literalLength body + 1)
  | none => do
    includeStrings
    return "((int) strlen(" ++ text ++ ") + 1)"

/-- Writes a value to an address. -/
def writeTo (address : String) : Stored → Recipe String
  | .number => do
    let content ← value p b "VALUE" .anything
    return "ee_putInt(" ++ content ++ ", " ++ address ++ ");\n"
  | .byte => do
    let content ← operandOrDefault p b "VALUE"
    return "ee_putByte(" ++ byteText content ++ ", " ++ address ++ ");\n"
  | .text => do
    let found ← value? p b "VALUE" .anything
    let content := found.getD "\"\""
    let length ← storedLength content
    return "ee_putStr(" ++ content ++ ", " ++ length ++ ", " ++ address ++ ");\n"

/-- Stores a value. -/
def memoryWrite : Recipe String := do
  let address ← memoryAddress p b
  writeTo p b address (.ofField (p.field b "TYPE"))

/-- Reads an address into a variable. -/
def readFrom (address name : String) : Stored → Recipe String
  | .number => do
    Recipe.perform (.setType name .int)
    return name ++ " = ee_getInt(" ++ address ++ ");\n"
  | .byte => do
    Recipe.perform (.setType name .int)
    return name ++ " = ee_getByte(" ++ address ++ ");\n"
  | .text => do
    Recipe.perform (.setType name .char)
    Recipe.perform (.setLength name memoryTextLength)
    return "ee_getStr(" ++ name ++ ", " ++ toString memoryTextLength ++ ", " ++ address ++ ");\n"

/-- Loads a value. -/
def memoryRead : Recipe String := do
  let address ← memoryAddress p b
  readFrom address (variableName p b) (.ofField (p.field b "TYPE"))

end BlockCompiler.Emit
