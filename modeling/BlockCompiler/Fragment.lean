import BlockCompiler.Diagnostic
import BlockCompiler.Precedence
import BlockCompiler.Text.Lines

set_option autoImplicit false

/-! # Fragments of C

The code that one block yields: statements, or an expression that knows how tightly it binds. Where
a value is expected and a block has only a comment to offer, the comment turns into a block comment
in front of a harmless value. -/

namespace BlockCompiler

/-- An expression and the strength of its outermost operator. -/
structure Operand where
  text : String
  order : Precedence
  deriving Repr, DecidableEq

/-- An expression that needs no parentheses anywhere. -/
def Operand.atom (text : String) : Operand := ⟨text, .atomic⟩

/-- The expression as it stands where `outer` is asked for. -/
def Operand.within (o : Operand) (outer : Precedence) : String :=
  Precedence.wrap o.text o.order outer

/-- What a block yields. -/
inductive Fragment where
  | statement (text : String)
  | expression (operand : Operand)
  deriving Repr, DecidableEq

namespace Comment

/-- The text behind the slashes that open line comments, however many there are. -/
def dropOpeners : List Char → List Char
  | '/' :: '/' :: ' ' :: cs => dropOpeners cs
  | cs => cs

/-- Splits every mark that would close a block comment. -/
def splitClosers : List Char → List Char
  | '*' :: '/' :: cs => '*' :: ' ' :: '/' :: splitClosers cs
  | c :: cs => c :: splitClosers cs
  | [] => []

/-- The texts of the line comments that a text consists of. -/
def texts (cs : List Char) : List (List Char) :=
  ((Text.pieces '\n' cs).map fun line => dropOpeners (Text.trim line)).filter (!·.isEmpty)

/-- A value preceded by the text of line comments as one block comment. -/
def beforeValue (comments value : String) : String :=
  let body := splitClosers (List.intercalate [' '] (texts comments.toList))
  "/* " ++ String.ofList body ++ " */ " ++ value

/-- Whether a text is led by the comment line of a diagnostic. -/
def isDiagnostic (text : String) : Bool :=
  let cs := Text.trimLeft text.toList
  [Severity.warning, Severity.error].any fun severity =>
    ("// " ++ severity.label ++ ":").toList.isPrefixOf cs

end Comment

end BlockCompiler
