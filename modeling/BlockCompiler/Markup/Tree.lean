import BlockCompiler.Markup.Node
import BlockCompiler.Markup.Token

set_option autoImplicit false

/-! # Building markup trees

Matching tags into a tree. Scopes have to be declared before names are taken from them, and names
lose their scopes; of attributes that end up with one name the last counts. Runs of white space
between tags are dropped. -/

namespace BlockCompiler.Markup

/-- An element whose end tag has not come yet. -/
structure Frame where
  name : Name
  attributes : Ledger String
  /-- The children so far, last one first. -/
  children : List Node := []
  /-- The scopes that are declared for the element and its content. -/
  scopes : List String

/-- A tree that is being built. -/
structure Builder where
  /-- The open elements, innermost first. -/
  frames : List Frame := []
  root? : Option Element := none
  hasDoctype : Bool := false

namespace Builder

/-! ## Attributes -/

/-- The scopes that are always declared. -/
def standardScopes : List String := ["xml", "xmlns"]

/-- Whether a text is the address of one of the two namespaces that every document knows. -/
def isFixedNamespace (address path : String) : Bool :=
  address == "http:" ++ "//www.w3.org/" ++ path

/-- The path of the namespace of standard attributes. -/
def standardPath : String := "XML/1998/namespace"

/-- The path of the namespace of declarations. -/
def declarationPath : String := "2000/xmlns/"

/-- Whether an attribute declares a scope or the namespace of names without one. -/
def isDeclaration (name : Name) : Bool :=
  name.scope? == some "xmlns" || (name.scope? == none && name.base == "xmlns")

/-- Whether a declaration is a legal one. -/
def isLegalDeclaration (name : Name) (value : String) : Bool :=
  if name.scope? == none then
    !standardScopes.contains value && !isFixedNamespace value standardPath &&
      !isFixedNamespace value declarationPath
  else
    name.base != "xmlns" && (name.base != "xml" || isFixedNamespace value standardPath) &&
      !value.isEmpty

/-- Whether no name comes twice. -/
def distinct : List Name → Bool
  | [] => true
  | name :: rest => !rest.contains name && distinct rest

/-- Whether the scope of a name is declared. -/
def isDeclared (scopes : List String) (name : Name) : Bool := name.scope?.all scopes.contains

/-- Whether an element may have a name: the standard scopes are for attributes only. -/
def isElementName (scopes : List String) (name : Name) : Bool :=
  isDeclared scopes name && !name.scope?.any standardScopes.contains

/-- The frame of a start tag inside of the given scopes. -/
def frame? (scopes : List String) (name : Name) (attributes : List (Name × String)) :
    Option Frame :=
  let declarations := attributes.filter fun (name, _) => isDeclaration name
  let others := attributes.filter fun (name, _) => !isDeclaration name
  let scopes := (declarations.filter fun (name, _) => name.scope? != none).map
    (fun (name, _) => name.base) ++ scopes
  if declarations.all (fun (name, value) => isLegalDeclaration name value) &&
      distinct (others.map Prod.fst) && isElementName scopes name &&
      others.all (fun (name, _) => isDeclared scopes name) then
    some { name, scopes
           attributes := Ledger.ofList (others.map fun (name, value) => (name.base, value)) }
  else
    none

/-! ## Steps -/

/-- Puts a node into the innermost open element. -/
def addNode? (b : Builder) (node : Node) : Option Builder :=
  match b.frames with
  | [] => none
  | frame :: outer =>
    some { b with frames := { frame with children := node :: frame.children } :: outer }

/-- Closes an element: it goes into the one around it or is the root. -/
def addFrame (b : Builder) (frame : Frame) : Builder :=
  let element : Element := ⟨frame.name.base, frame.attributes, frame.children.reverse⟩
  (b.addNode? element.node).getD { b with root? := some element }

/-- Takes a start tag. There is only one root. -/
def takeStart? (b : Builder) (name : Name) (attributes : List (Name × String)) (empty : Bool) :
    Option Builder := do
  if b.frames.isEmpty && b.root?.isSome then none
  else
    let scopes := (b.frames.head?.map Frame.scopes).getD standardScopes
    let frame ← frame? scopes name attributes
    return if empty then b.addFrame frame else { b with frames := frame :: b.frames }

/-- Takes an end tag, which has to name the innermost open element. -/
def takeEnd? (b : Builder) (name : Name) : Option Builder :=
  match b.frames with
  | [] => none
  | frame :: outer =>
    if frame.name = name then some ({ b with frames := outer }.addFrame frame) else none

/-- Takes a run of text. Outside of the root only white space is allowed. -/
def takeText? (b : Builder) (raw : List Char) : Option Builder := do
  if b.frames.isEmpty then
    if raw.all isSpace then some b else none
  else
    let content ← Token.decode? none raw
    if content.all isSpace then some b else b.addNode? (.text (String.ofList content))

/-- Takes a token. -/
def take? (b : Builder) : Token → Option Builder
  | .startTag name attributes empty => b.takeStart? name attributes empty
  | .endTag name => b.takeEnd? name
  | .text raw => b.takeText? raw
  | .verbatim content => b.addNode? (.text (String.ofList content))
  | .skipped => some b
  | .doctype =>
    if b.hasDoctype || b.root?.isSome || !b.frames.isEmpty then none
    else some { b with hasDoctype := true }

/-- The root of a tree that is complete. -/
def finish? (b : Builder) : Option Element := if b.frames.isEmpty then b.root? else none

end Builder

/-- The root element of a well-formed document. -/
def Element.ofDocument? (source : String) : Option Element := do
  let tokens ← Token.ofDocument? source.toList
  let b ← tokens.foldlM Builder.take? {}
  b.finish?

end BlockCompiler.Markup
