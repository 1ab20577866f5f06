import BlockCompiler.CType
import BlockCompiler.Diagnostic
import BlockCompiler.Ledger

set_option autoImplicit false

/-! # The compilation context

Everything that blocks register besides their own code. A section maps a resource, such as a header
or a helper function, to its source text, so that any number of blocks that share the resource
produce it once. All changes go through `Action`s. -/

namespace BlockCompiler

/-- A part of the program that blocks register text in. -/
inductive Section where
  | includes
  | globals
  | setups
  | declarations
  | methods
  deriving Repr, DecidableEq

/-- What blocks registered so far. -/
structure Context where
  includes : Ledger String := {}
  globals : Ledger String := {}
  /-- Statements that run before the body of the main function. -/
  setups : Ledger String := {}
  /-- Prototypes of functions. -/
  declarations : Ledger String := {}
  methods : Ledger String := {}
  /-- Types of variables. -/
  types : Ledger CType := {}
  /-- Lengths of character buffers. -/
  lengths : Ledger Nat := {}
  diagnostics : List Diagnostic := []
  deriving Repr, DecidableEq

namespace Context

/-- The context in which nothing is registered. -/
def empty : Context := {}

/-- The texts of a section. -/
def ledger (c : Context) : Section → Ledger String
  | .includes => c.includes
  | .globals => c.globals
  | .setups => c.setups
  | .declarations => c.declarations
  | .methods => c.methods

/-- The context with the texts of a section exchanged. -/
def withLedger (c : Context) : Section → Ledger String → Context
  | .includes, l => { c with includes := l }
  | .globals, l => { c with globals := l }
  | .setups, l => { c with setups := l }
  | .declarations, l => { c with declarations := l }
  | .methods, l => { c with methods := l }

/-- Hands out the diagnostics and forgets them. -/
def takeDiagnostics (c : Context) : List Diagnostic × Context :=
  (c.diagnostics, { c with diagnostics := [] })

end Context

/-- A change of the context. -/
inductive Action where
  /-- Registers a text unless its key is taken; the answer tells whether it was new. -/
  | register (part : Section) (key text : String)
  /-- Registers a setup in place of an earlier one. -/
  | replaceSetup (key text : String)
  /-- Types a variable by its first assigned value; the answer is the variable's type. -/
  | inferType (name text : String)
  /-- Types a variable anew. -/
  | setType (name : String) (type : CType)
  /-- Asks for a buffer of a length; the greatest one asked for counts. -/
  | setLength (name : String) (length : Nat)
  /-- Records a diagnostic. -/
  | diagnose (diagnostic : Diagnostic)
  deriving Repr, DecidableEq

namespace Action

/-- What an action answers. -/
abbrev Answer : Action → Type
  | .register _ _ _ => Bool
  | .inferType _ _ => CType
  | _ => Unit

/-- Carries an action out. -/
def perform (c : Context) : (a : Action) → a.Answer × Context
  | .register part key text =>
    let l := c.ledger part
    (!l.contains key, c.withLedger part (l.add key text))
  | .replaceSetup key text => ((), { c with setups := c.setups.put key text })
  | .inferType name text =>
    match c.types.get? name with
    | some type => (type, c)
    | none => (CType.sniff text, { c with types := c.types.put name (CType.sniff text) })
  | .setType name type => ((), { c with types := c.types.put name type })
  | .setLength name length =>
    ((), { c with lengths := c.lengths.put name (max ((c.lengths.get? name).getD 0) length) })
  | .diagnose diagnostic => ((), { c with diagnostics := c.diagnostics ++ [diagnostic] })

end Action

end BlockCompiler
