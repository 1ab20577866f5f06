import BlockCompiler.Emit.Socket
import BlockCompiler.Text.Quoted

set_option autoImplicit false

/-! # Comments, custom code and the console -/

namespace BlockCompiler.Emit

variable (p : Project) (b : Block)

/-- A comment on one line: line breaks become blanks. -/
def comment : Recipe String :=
  let oneLine := (p.field b "COMMENT_TEXT").toList.map fun c =>
    if c = '\r' || c = '\n' then ' ' else c
  return "// " ++ String.ofList (Text.trimRight oneLine) ++ "\n"

/-- The section that a custom code block names, if it names one. -/
def customSection? : String → Option Section
  | "includes" => some .includes
  | "globals" => some .globals
  | "setups" => some .setups
  | "functions" => some .methods
  | _ => none

/-- Code written by the user, in the section that the block names or else where the block stands.
Every block registers under its own name, so equal snippets both stay. -/
def customCode : Recipe String :=
  let code := p.field b "CODE"
  match customSection? (p.field b "LOCATION") with
  | some part => do
    Recipe.ensure part ("custom_code_" ++ b.id) code
    return ""
  | none => return if Text.allBlank code.toList then "" else Text.closeLine code

/-! ## The console -/

/-- The carriage return that ends a print, if the block asks for it. -/
def lineEnd : String := if p.field b "NEWLINE" == "TRUE" then "\\r" else ""

/-- A literal as a format: percent signs are doubled. -/
def formatOf (body : String) : String :=
  String.ofList (body.toList.flatMap fun c => if c = '%' then ['%', '%'] else [c])

/-- Prints a text. A literal is the format itself; anything else goes through `%s`. -/
def print : Recipe String := do
  let message ← value p b "MESSAGE" .anything
  match Text.literalBody? message with
  | some body => return "print(\"" ++ formatOf body ++ lineEnd p b ++ "\");\n"
  | none => return "print(\"%s" ++ lineEnd p b ++ "\", " ++ message ++ ");\n"

/-- The conversion of a number format. -/
def conversion : String → String
  | "HEX" => "%x"
  | "BIN" => "%b"
  | "CHAR" => "%c"
  | "FLOAT" => "%f"
  | _ => "%d"

/-- Prints a number. -/
def printValue : Recipe String := do
  let number ← value p b "VALUE" .anything
  return "print(\"" ++ conversion (p.field b "FORMAT") ++ lineEnd p b ++ "\", " ++ number ++ ");\n"

/-- Ends the line on the console. -/
def printNewline : Recipe String := return "print(\"\\r\");\n"

end BlockCompiler.Emit
