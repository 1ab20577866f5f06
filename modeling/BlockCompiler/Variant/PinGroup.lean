import BlockCompiler.Block
import BlockCompiler.Definition

set_option autoImplicit false

/-! # Pin groups

A block that writes a run of pins at once has one bit field for every pin of the run, so its form
depends on two of its own fields. A `PinGroup` is such a form. -/

namespace BlockCompiler

/-- What is written to the pins. -/
inductive PinAction where
  /-- Their output levels. -/
  | state
  /-- Whether they are outputs. -/
  | direction
  deriving Repr, DecidableEq

/-- The value of the action's menu. -/
def PinAction.field : PinAction → String
  | .state => "STATE"
  | .direction => "DIRECTION"

/-- A run of pins and what is written to them. -/
structure PinGroup where
  action : PinAction
  first : Nat
  last : Nat
  deriving Repr, DecidableEq

namespace PinGroup

/-- The pins of the run, lowest first. -/
def pins (g : PinGroup) : List Nat := List.range' g.first (g.last + 1 - g.first)

/-- The name of a pin's bit field. -/
def bitField (pin : Nat) : String := "P" ++ toString pin

/-- A pin number of eight bits. -/
def pinNumber? (text : String) : Option Nat := Text.unsigned? 255 (Text.trim text.toList)

/-- The group that a block's fields describe. Ends that were given the wrong way round are swapped;
a missing first pin is pin 0, and a missing last pin is the first one. -/
def ofBlock (b : Block) : PinGroup :=
  let action := if b.field? "ACTION" == some "DIRECTION" then .direction else .state
  let one := ((b.field? "START_PIN").bind pinNumber?).getD 0
  let other := ((b.field? "END_PIN").bind pinNumber?).getD one
  { action, first := min one other, last := max one other }

/-- Whether a block has the bit of a pin set. -/
def isSet (b : Block) (pin : Nat) : Bool := b.field? (bitField pin) == some "1"

/-- The menu of a bit field. -/
def bitOptions : PinAction → List (String × String)
  | .state => [("LOW", "0"), ("HIGH", "1")]
  | .direction => [("INPUT", "0"), ("OUTPUT", "1")]

/-- The definition of the form: after the three leading menus, the bits from the highest pin down. -/
def definition (g : PinGroup) (board : Board) : Definition :=
  { kind := .setPins
    shape := .statement
    fields :=
      [Field.dropdown "ACTION" [("state", "STATE"), ("direction", "DIRECTION")],
        Field.pin board "START_PIN", Field.pin board "END_PIN"] ++
      g.pins.reverse.map fun pin => Field.dropdown (bitField pin) (bitOptions g.action) }

/-- The block brought into the form: bits of the group's own pins are kept, other bits and all
sockets are dropped. -/
def reshape (g : PinGroup) (b : Block) : Block :=
  { id := b.id
    type := Kind.setPins.name
    next := b.next
    disabled := b.disabled
    x := b.x
    y := b.y
    fields := ⟨("ACTION", g.action.field) :: ("START_PIN", toString g.first) ::
      ("END_PIN", toString g.last) ::
      g.pins.map fun pin => (bitField pin, if isSet b pin then "1" else "0")⟩ }

end PinGroup

end BlockCompiler
