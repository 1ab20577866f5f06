import BlockCompiler.Emit.Variable

set_option autoImplicit false

/-! # Arrays

An array is declared by its first initializer in program order, which also fixes the size that the
other array blocks count with. -/

namespace BlockCompiler.Emit

/-- The greatest size of an array. -/
def greatestArraySize : Int := 2048

/-- The key under which an array is declared. -/
def arrayKey (name : String) : String := "array_" ++ name

/-- The size that a text asks for, held between one and the greatest size; ten if it is no number. -/
def arraySize (text : String) : Int :=
  match Text.signed? 10 (Text.trim text.toList) with
  | some n => Text.clamp n 1 greatestArraySize
  | none => 10

variable (p : Project) (b : Block)

/-- The size of an array by its first initializer, if there is one. -/
def initializedSize? (name : String) : Option Int :=
  ((p.blocksInOrder .arrayInit).find? fun init =>
    Identifier.ofName (init.fieldOr "VAR" "list") == name).map fun init =>
      arraySize (init.fieldOr "NUM" "10")

/-- An error about an array without an initializer. -/
def uninitialized (name : String) : Recipe String :=
  Recipe.error b ("The array \"" ++ name ++ "\" has not been initialized!")

/-- The index of an element; a literal is kept inside the array. -/
def arrayIndex (size : Int) : Recipe String := do
  let text ← value p b "NUM" .anything
  match Text.intLiteral? text with
  | some n => return toString (Text.clamp n 0 (size - 1))
  | none => return text

/-- Declares an array. -/
def arrayInit : Recipe String := do
  let name := variableName p b
  let size := arraySize (p.field b "NUM")
  let isNew ← Recipe.register .globals (arrayKey name)
    ("int " ++ name ++ "[" ++ toString size ++ "];")
  if !isNew && initializedSize? p name != some size then
    Recipe.warning b
      ("The array \"" ++ name ++ "\" is initialized more than once with different sizes!")
  else
    return ""

/-- Reads an element. -/
def arrayGet : Recipe Operand := do
  let name := variableName p b
  match initializedSize? p name with
  | none =>
    let line ← uninitialized b name
    return .atom (Comment.beforeValue line "0")
  | some size =>
    let index ← arrayIndex p b size
    return ⟨name ++ "[" ++ index ++ "]", .unaryPostfix⟩

/-- Writes an element. -/
def arraySet : Recipe String := do
  let name := variableName p b
  match initializedSize? p name with
  | none => uninitialized b name
  | some size =>
    let index ← arrayIndex p b size
    let text ← value p b "VALUE" .assignment
    return name ++ "[" ++ index ++ "] = " ++ text ++ ";\n"

/-- The numbers of a list separated by commas; an entry that is no integer counts as zero. -/
def listedValues (text : String) : List Int :=
  (((Text.pieces ',' text.toList).map Text.trim).filter (!·.isEmpty)).map fun entry =>
    (Text.intLiteral? (String.ofList entry)).getD 0

/-- A warning if a list is longer than its array. -/
def overflowWarning (name : String) (size : Int) (count : Nat) : Recipe String :=
  if size < count then
    Recipe.warning b
      ("The array \"" ++ name ++ "\" only has " ++ toString size ++
        " elements; extra values were dropped.")
  else
    return ""

/-- Copies a list into an array. Values past the end are dropped with a warning. -/
def arrayFill : Recipe String := do
  let name := variableName p b
  match initializedSize? p name with
  | none => uninitialized b name
  | some size =>
    let listed := listedValues (p.field b "NUM")
    if listed.isEmpty then
      Recipe.warning b ("No values given to fill the array \"" ++ name ++ "\".")
    else
      let line ← overflowWarning b name size listed.length
      let values := listed.take size.toNat
      includeStrings
      let temp ← Recipe.freshName "tmpArr"
      return line ++ "int " ++ temp ++ "[] = \x7b" ++ ", ".intercalate (values.map toString) ++
        "\x7d;\nmemcpy(" ++ name ++ ", " ++ temp ++ ", " ++ toString values.length ++
        " * sizeof(int));\n"

/-- Sets all elements to zero. -/
def arrayClear : Recipe String := do
  let name := variableName p b
  match initializedSize? p name with
  | none => uninitialized b name
  | some _ =>
    includeStrings
    return "memset(" ++ name ++ ", 0, sizeof " ++ name ++ ");\n"

end BlockCompiler.Emit
