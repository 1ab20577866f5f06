import BlockCompiler.Text.Blank

set_option autoImplicit false

/-! # C identifiers

Turning the name that a user chose into a legal C identifier that is neither a keyword nor the name
of a library call that generated code relies on. -/

namespace BlockCompiler.Identifier

/-- C keywords, and library names used by generated code. -/
def reserved : List String := [
  "auto", "break", "case", "char", "const", "continue", "default", "do", "double", "else",
  "enum", "extern", "float", "for", "goto", "if", "inline", "int", "long", "register",
  "restrict", "return", "short", "signed", "sizeof", "static", "struct", "switch", "typedef",
  "union", "unsigned", "void", "volatile", "while", "main", "high", "low", "input", "toggle",
  "reverse", "pause", "print", "CNT", "INA", "OUTA", "DIRA"]

/-- An ASCII letter or digit or an underscore. -/
def isWordChar (c : Char) : Bool := c.isAlphanum || c = '_'

/-- Any other character becomes an underscore. -/
def wordChar (c : Char) : Char := if isWordChar c then c else '_'

/-- A name that is not empty. -/
def orUnnamed (cs : List Char) : List Char := if cs.isEmpty then "unnamed".toList else cs

/-- A name that does not start with a digit. -/
def guardDigit : List Char → List Char
  | [] => []
  | c :: cs => if c.isDigit then '_' :: c :: cs else c :: cs

/-- The characters of the identifier before reserved words are told apart. -/
def chars (cs : List Char) : List Char :=
  guardDigit (orUnnamed ((Text.trim cs).map wordChar))

/-- A name that is not reserved. -/
def avoidReserved (name : String) : String := if reserved.contains name then name ++ "_" else name

/-- The identifier of a name. -/
def ofName (name : String) : String := avoidReserved (String.ofList (chars name.toList))

end BlockCompiler.Identifier
