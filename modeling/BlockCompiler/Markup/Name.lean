set_option autoImplicit false

/-! # Characters and names of markup

The characters that a document may hold, its white space, and names with an optional scope in front
of a colon. -/

namespace BlockCompiler.Markup

/-- The characters that a document may hold. -/
def isAllowed (c : Char) : Bool :=
  let n := c.toNat
  n == 9 || n == 10 || n == 13 || (0x20 ≤ n && n ≤ 0xFFFD) || 0x10000 ≤ n

/-- Space, tab, carriage return and line feed. -/
def isSpace (c : Char) : Bool := c = ' ' || c = '\t' || c = '\r' || c = '\n'

/-- Code points beyond ASCII that a name may start with. -/
def wideStartRanges : List (Nat × Nat) := [
  (0xC0, 0xD6), (0xD8, 0xF6), (0xF8, 0x2FF), (0x370, 0x37D), (0x37F, 0x1FFF), (0x200C, 0x200D),
  (0x2070, 0x218F), (0x2C00, 0x2FEF), (0x3001, 0xD7FF), (0xF900, 0xFDCF), (0xFDF0, 0xFFFD),
  (0x10000, 0xEFFFF)]

/-- A character that a name may start with. -/
def isNameStart (c : Char) : Bool :=
  c.isAlpha || c = ':' || c = '_' ||
    wideStartRanges.any fun (first, last) => first ≤ c.toNat && c.toNat ≤ last

/-- A character that a name may go on with. -/
def isNameChar (c : Char) : Bool :=
  let n := c.toNat
  isNameStart c || c = '-' || c = '.' || c.isDigit || n == 0xB7 || (0x300 ≤ n && n ≤ 0x36F) ||
    (0x203F ≤ n && n ≤ 0x2040)

/-- A name with the scope that it is taken from, if it names one. -/
structure Name where
  scope? : Option String
  base : String
  deriving Repr, DecidableEq

namespace Name

/-- Reads a name written with at most one colon, which stands between two parts. -/
def ofChars? (cs : List Char) : Option Name :=
  let first := cs.takeWhile (· != ':')
  match cs.dropWhile (· != ':') with
  | [] => if first.isEmpty then none else some ⟨none, String.ofList first⟩
  | _ :: second =>
    if first.isEmpty || second.isEmpty || second.contains ':' then none
    else some ⟨some (String.ofList first), String.ofList second⟩

/-- The characters of a name at the start of the text, and what follows them. -/
def raw? (cs : List Char) : Option (List Char × List Char) :=
  match cs with
  | [] => none
  | c :: _ =>
    if isNameStart c then some (cs.takeWhile isNameChar, cs.dropWhile isNameChar) else none

/-- The name at the start of the text, and what follows it. -/
def scan? (cs : List Char) : Option (Name × List Char) := do
  let (raw, rest) ← raw? cs
  let name ← ofChars? raw
  return (name, rest)

end Name

end BlockCompiler.Markup
