import BlockCompiler.Block
import BlockCompiler.Text.Case

set_option autoImplicit false

/-! # Where a pin number comes from

A pin is first a menu; the editor can put a value socket in its place. -/

namespace BlockCompiler

/-- Where a block's pin number comes from. -/
inductive PinSource where
  /-- Chosen in a menu. -/
  | fixed
  /-- Computed while the program runs. -/
  | programmable
  deriving Repr, DecidableEq

/-- A pin is programmable if the block was switched to it or something is plugged in. -/
def PinSource.ofBlock (b : Block) (socket : String) : PinSource :=
  let switched := (b.mutation.get? "pinmenu").any fun menu => Text.equalIgnoringCase menu "program"
  if switched || b.values.contains socket then .programmable else .fixed

end BlockCompiler
