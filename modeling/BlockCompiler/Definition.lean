import BlockCompiler.Board
import BlockCompiler.Kind

set_option autoImplicit false

/-! # Block definitions

What a block of a kind offers: its shape, its inputs with the C text that stands for an empty
socket, and its fields with their defaults. -/

namespace BlockCompiler

/-- How a block takes part in a program. -/
inductive Shape where
  /-- Stands in a stack and does something. -/
  | statement
  /-- Plugs into a socket and yields a value. -/
  | value
  /-- Stands alone and registers code elsewhere. -/
  | definition
  deriving Repr, DecidableEq

/-- What an input takes. -/
inductive InputKind where
  /-- A value, with the C text used while nothing is plugged in. -/
  | value (default : String)
  /-- A stack. -/
  | statement
  /-- Nothing; it only carries a label. -/
  | dummy
  deriving Repr, DecidableEq

/-- An input of a block. -/
structure Input where
  name : String
  kind : InputKind
  deriving Repr, DecidableEq

/-- How a field is edited. -/
inductive FieldKind where
  /-- A menu of labels and values. -/
  | dropdown (options : List (String × String))
  | text
  | number
  | variableName
  deriving Repr, DecidableEq

/-- A field of a block. -/
structure Field where
  name : String
  kind : FieldKind
  default : String
  deriving Repr, DecidableEq

namespace Field

/-- A menu; its first value is the default. -/
def dropdown (name : String) (options : List (String × String)) : Field :=
  { name, kind := .dropdown options, default := (options.head?.map Prod.snd).getD "" }

/-- A field for any text. -/
def text (name default : String) : Field := { name, kind := .text, default }

/-- A field for a number. -/
def number (name default : String) : Field := { name, kind := .number, default }

/-- A field that names a variable. -/
def variableName (name default : String) : Field := { name, kind := .variableName, default }

/-- A menu of the board's pins. -/
def pin (board : Board) (name : String) : Field :=
  dropdown name (board.digitalPins.map fun p => (toString p, toString p))

end Field

/-- What a block of a kind offers. -/
structure Definition where
  kind : Kind
  shape : Shape
  inputs : List Input := []
  fields : List Field := []
  deriving Repr, DecidableEq

namespace Definition

/-- The input of a name. -/
def input? (d : Definition) (name : String) : Option Input := d.inputs.find? (·.name == name)

/-- The field of a name. -/
def field? (d : Definition) (name : String) : Option Field := d.fields.find? (·.name == name)

/-- The C text for an empty value socket. -/
def valueDefault? (d : Definition) (name : String) : Option String :=
  (d.input? name).bind fun input =>
    match input.kind with
    | .value default => some default
    | _ => none

/-- The text of a field that a block does not carry. -/
def fieldDefault? (d : Definition) (name : String) : Option String :=
  (d.field? name).map Field.default

end Definition

end BlockCompiler
