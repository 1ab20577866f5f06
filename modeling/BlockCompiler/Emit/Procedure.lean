import BlockCompiler.Emit.Socket
import BlockCompiler.Identifier

set_option autoImplicit false

/-! # Functions

Functions without arguments, calls of them, and cogs that run them. A call is only made to a function
that some enabled block of the workspace defines. -/

namespace BlockCompiler.Emit

variable (p : Project) (b : Block)

/-- Registers a function and its prototype. -/
def procedure : Recipe String := do
  let name := Identifier.ofName (p.field b "NAME")
  let stack ← body p b "STACK"
  Recipe.ensure .declarations name ("void " ++ name ++ "();")
  let isNew ← Recipe.register .methods name ("void " ++ name ++ "() \x7b\n" ++ stack ++ "\x7d\n")
  if isNew then return ""
  else Recipe.warning b ("The function \"" ++ name ++ "\" is defined more than once!")

/-- The function that a call block names: its mutation says, or else its field. -/
def calledName : String :=
  Identifier.ofName ((b.mutation.get? "name").getD (p.field b "NAME"))

/-- Whether a block defines the function. -/
def isDefined (name : String) : Bool :=
  p.workspace.containsMatching Kind.procedure.name fun definition =>
    Identifier.ofName (definition.fieldOr "NAME" "my_function") == name

/-- A warning about a function that no block defines. -/
def undefinedWarning (name : String) : Recipe String :=
  Recipe.warning b ("The function \"" ++ name ++ "\" has not been defined!")

/-- Calls a function. -/
def procedureCall : Recipe String :=
  let name := calledName p b
  if isDefined p name then return name ++ "();\n" else undefinedWarning b name

/-- The call block that a new cog is to run. -/
def cogCall? : Option Block :=
  ((b.statements.get? "METHOD").bind p.workspace.block?).filter fun call =>
    call.type == Kind.procedureCall.name && !call.disabled

/-- The stack of a new cog in words, held between 25 and 6000; 128 if it is no number. -/
def stackSize (text : String) : Int :=
  match Text.signed? 10 (Text.trim text.toList) with
  | some n => Text.clamp n 25 6000
  | none => 128

/-- Runs a function on a cog of its own. -/
def newCog : Recipe String :=
  match cogCall? p b with
  | none => Recipe.warning b "Put a function call block inside the new processor block!"
  | some call =>
    let name := calledName p call
    if isDefined p name then
      return "cog_run(" ++ name ++ ", " ++ toString (stackSize (p.field b "STACK_SIZE")) ++ ");\n"
    else
      undefinedWarning b name

end BlockCompiler.Emit
