import BlockCompiler.Emission

set_option autoImplicit false

/-! # Programs

The whole C program of a project: the code of its stacks in canvas order, laid out with everything
that the blocks registered. -/

namespace BlockCompiler

/-- A generated program and what there is to say about it. -/
structure Program where
  source : String
  diagnostics : List Diagnostic
  deriving Repr, DecidableEq

/-- Whether a diagnostic is an error. -/
def Program.hasErrors (p : Program) : Bool := p.diagnostics.any (·.severity == .error)

namespace Project

/-! ## The body of the main function -/

/-- The code of a block that registers its code elsewhere: what it leaves is a diagnostic. -/
def definitionCode (id : BlockId) : Recipe String := do
  match ← Recipe.code id with
  | .statement text => return text
  | .expression _ => return ""

/-- The code of the stack that a top block heads. An enabled definition stands alone, and a value
that is plugged in nowhere has no code. -/
def stackCode (p : Project) (id : BlockId) : Recipe String :=
  match p.workspace.block? id with
  | none => return ""
  | some b =>
    match (p.definition? b).map Definition.shape with
    | some .definition => if b.disabled then Emit.chain p id else definitionCode id
    | some .value => return ""
    | _ => Emit.chain p id

/-- The code of all stacks in canvas order. -/
def mainBody (p : Project) : Recipe String := do
  Recipe.ensure .includes "simpletools" "#include \"simpletools.h\""
  Recipe.concat (p.workspace.topBlocks.map p.stackCode)

/-! ## Declarations of variables -/

/-- How many characters a buffer has when no block asks for a length. -/
def standardLength : Nat := 64

/-- The declaration of a variable. -/
def declaration (name : String) (type : CType) (length? : Option Nat) : String :=
  match type with
  | .char => "char " ++ name ++ "[" ++ toString (length?.getD standardLength) ++ "];"
  | .charPointer => "char *" ++ name ++ ";"
  | .int => "int " ++ name ++ ";"
  | .float => "float " ++ name ++ ";"

/-- The identifiers of declared variables that need a declaration still: arrays have one, and so
have the names in `taken`. -/
def untypedNames (c : Context) : List String → List String → List String
  | _, [] => []
  | taken, declared :: rest =>
    let name := Identifier.ofName declared
    if c.globals.contains (Emit.arrayKey name) || taken.contains name then
      untypedNames c taken rest
    else
      name :: untypedNames c (name :: taken) rest

/-- The declarations of all variables: typed ones in the order in which they got a type, then the
others as integers. -/
def variableDeclarations (p : Project) (c : Context) : List String :=
  (c.types.entries.map fun (name, type) => declaration name type (c.lengths.get? name)) ++
    (untypedNames c c.types.keys p.workspace.variableNames).map fun name =>
      declaration name .int none

/-! ## Layout -/

/-- A part of the program under its title. -/
def titled (title text : String) : String := "// ------ " ++ title ++ " ------\n" ++ text

/-- A part that is left out if it has no entries. -/
def titledUnlessEmpty (title separator : String) (texts : List String) : List String :=
  if texts.isEmpty then [] else [titled title (separator.intercalate texts)]

/-- The main function: the setups, then the body. -/
def mainFunction (c : Context) (body : String) : String :=
  let setups := c.setups.values.map fun setup => Text.indent (Text.closeLine setup) Emit.indentation
  "int main() \x7b\n" ++ String.join setups ++ Text.indent body Emit.indentation ++ "\x7d"

/-- The parts of the program from top to bottom. -/
def parts (p : Project) (c : Context) (body : String) : List String :=
  [titled "Libraries and Definitions" ("\n".intercalate c.includes.values)] ++
    titledUnlessEmpty "Global Variables and Objects" "\n"
      (c.globals.values ++ p.variableDeclarations c) ++
    titledUnlessEmpty "Function Declarations" "\n" c.declarations.values ++
    titledUnlessEmpty "Functions" "\n\n" (c.methods.values.map Text.trimmedRight) ++
    [titled "Main Program" (mainFunction c body)]

/-- The text of the program. -/
def layout (p : Project) (c : Context) (body : String) : String :=
  "\n\n".intercalate (p.parts c body) ++ "\n"

/-- Compiles a project. -/
def compile (p : Project) : Program :=
  let (body, s) := p.run p.mainBody .empty
  { source := p.layout s.context body, diagnostics := s.context.diagnostics }

end Project

end BlockCompiler
