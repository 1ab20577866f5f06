import BlockCompiler.Emit.Socket
import BlockCompiler.Identifier
import BlockCompiler.Text.Quoted

set_option autoImplicit false

/-! # Variables

A variable that some block fills with text is a character buffer from the start, and texts are
copied into it. Any other variable has the type of the first value assigned. -/

namespace BlockCompiler.Emit

variable (p : Project) (b : Block)

/-- The identifier of the variable that a block names. -/
def variableName : String := Identifier.ofName (p.field b "VAR")

/-- Reads a variable. -/
def readVariable : Recipe Operand := return .atom (variableName p b)

/-- Counts a variable up or down by one. -/
def stepVariable : Recipe String :=
  let sign := if p.field b "OP" == "--" then "--" else "++"
  return variableName p b ++ sign ++ ";\n"

/-- Whether a block reads text into the variable `name`. -/
def readsTextInto (name : String) (reader : Block) : Bool :=
  (reader.type == Kind.fileRead.name ||
    (reader.type == Kind.memoryRead.name && p.field reader "TYPE" == "TEXT")) &&
  variableName p reader == name

/-- Whether an enabled block anywhere in the workspace reads text into the variable `name`. -/
def isBuffer (name : String) : Bool :=
  !(p.workspace.findAll (readsTextInto p name)).isEmpty

/-- The type of a variable that is assigned a value. -/
def assignedType (name text : String) : Recipe CType :=
  if isBuffer p name then do
    Recipe.perform (.setType name .char)
    return .char
  else
    Recipe.perform (.inferType name text)

/-- Asks for a buffer that holds a literal and the zero behind it. -/
def reserveLiteral (name text : String) : Recipe Unit :=
  match Text.literalBody? text with
  | some body => Recipe.perform (.setLength name (Text.literalLength body + 1))
  | none => return

/-- The header of the string functions. -/
def includeStrings : Recipe Unit := Recipe.ensure .includes "string" "#include <string.h>"

/-- Assigns a value to a variable. -/
def assign : Recipe String := do
  let name := variableName p b
  let text ← value p b "VALUE" .assignment
  let type ← assignedType p name text
  if type = .char then
    includeStrings
    reserveLiteral name text
    return "strcpy(" ++ name ++ ", " ++ text ++ ");\n"
  else
    return name ++ " = " ++ text ++ ";\n"

end BlockCompiler.Emit
