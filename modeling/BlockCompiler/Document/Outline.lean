import BlockCompiler.Block
import BlockCompiler.Board
import BlockCompiler.Decimal.Binary64
import BlockCompiler.Markup.Node

set_option autoImplicit false

/-! # Outlines of documents

A document nests blocks in the sockets of other blocks. An outline is that nesting with everything
else left out; reading one finds the first fault of the document. Numbers come later, in
`Document`. -/

namespace BlockCompiler

/-- Why a text is no document. -/
inductive LoadError where
  /-- The text is no well-formed markup. -/
  | malformed
  | wrongRoot (name : String)
  | unknownBoard (board : Board.Unknown)
  /-- A block has no type or a blank one. -/
  | missingType
  /-- An element that belongs to a field or a socket does not name it. -/
  | missingName (element : String)
  deriving Repr, DecidableEq

/-- The wording of a fault. -/
def LoadError.message : LoadError → String
  | .malformed => "Malformed XML"
  | .wrongRoot name => "Expected <xml> root element, found <" ++ name ++ ">."
  | .unknownBoard board => board.message
  | .missingType => "Block element is missing its 'type' attribute."
  | .missingName element => "<" ++ element ++ "> element is missing its 'name' attribute."

namespace Outline

/-- What a block's own attributes say. -/
structure Head where
  type : String
  /-- The block's name, if it has one. -/
  id? : Option String
  x : Int
  y : Int
  disabled : Bool
  deriving Repr, DecidableEq

/-- How a block hangs on another. -/
inductive Link where
  | value (socket : String)
  | statement (socket : String)
  | next
  deriving Repr, DecidableEq

/-- What stands inside of a block, in the order of the document. -/
inductive Content where
  | done
  | mutation (attributes : Ledger String) (rest : Content)
  /-- The text of a field, and whether it declares a variable. -/
  | field (name text : String) (declares : Bool) (rest : Content)
  /-- A block that hangs on this one, and what stands inside of it. -/
  | link (link : Link) (head : Head) (inner rest : Content)

/-- What stands at the top of a document. -/
inductive Item where
  | declarations (names : List String)
  | stack (head : Head) (content : Content)

/-- A coordinate rounded to an integer; what is no number counts as zero. -/
def coordinate (text? : Option String) : Int :=
  ((text?.bind fun text => Decimal.Binary64.ofChars? (Text.trim text.toList)).map
    Decimal.Binary64.toInteger).getD 0

/-- The attributes of a block. -/
def head? (attributes : Ledger String) : Except LoadError Head :=
  match (attributes.get? "type").filter fun type => !Text.allBlank type.toList with
  | none => .error .missingType
  | some type =>
    .ok
      { type
        id? := attributes.get? "id"
        x := coordinate (attributes.get? "x")
        y := coordinate (attributes.get? "y")
        disabled :=
          (attributes.get? "disabled").any fun text => Text.equalIgnoringCase text "true" }

/-- The name that an element has to carry. -/
def name? (element : String) (attributes : Ledger String) : Except LoadError String :=
  match attributes.get? "name" with
  | some name => .ok name
  | none => .error (.missingName element)

/-- Which element of a socket counts: a block, or else the shadow that stands in for one. -/
def wanted (children : List Markup.Node) : String :=
  if children.any (·.isNamed "block") then "block" else "shadow"

/-- Puts a block that was found in front of the rest. -/
def attach (link : Link) (found : Option (Head × Content)) (rest : Content) : Content :=
  match found with
  | some (head, inner) => .link link head inner rest
  | none => rest

mutual

/-- Reads what stands inside of a block. -/
def content? : List Markup.Node → Except LoadError Content
  | [] => .ok .done
  | .text _ :: rest => content? rest
  | .element element attributes children :: rest =>
    match element with
    | "mutation" => do
      let others ← content? rest
      return .mutation attributes others
    | "field" => do
      let name ← name? element attributes
      let others ← content? rest
      let declares := attributes.contains "variabletype" || name == "VAR"
      return .field name (Markup.ownText children) declares others
    | "value" => do
      let name ← name? element attributes
      let found ← connected? (wanted children) children
      let others ← content? rest
      return attach (.value name) found others
    | "statement" => do
      let name ← name? element attributes
      let found ← connected? (wanted children) children
      let others ← content? rest
      return attach (.statement name) found others
    | "next" => do
      let found ← connected? (wanted children) children
      let others ← content? rest
      return attach .next found others
    | _ => content? rest

/-- Reads the first element of the given name as a block. -/
def connected? (wanted : String) : List Markup.Node → Except LoadError (Option (Head × Content))
  | [] => .ok none
  | .text _ :: rest => connected? wanted rest
  | .element element attributes children :: rest =>
    if element == wanted then do
      let head ← head? attributes
      let content ← content? children
      return some (head, content)
    else
      connected? wanted rest

end

/-- The names in a list of variables; empty ones do not count. -/
def variableNames : List Markup.Node → List String
  | [] => []
  | .text _ :: rest => variableNames rest
  | .element element _ children :: rest =>
    let name := Markup.ownText children
    if element == "variable" && !name.isEmpty then name :: variableNames rest
    else variableNames rest

/-- Reads what stands at the top of a document. -/
def items? : List Markup.Node → Except LoadError (List Item)
  | [] => .ok []
  | .text _ :: rest => items? rest
  | .element element attributes children :: rest =>
    match element with
    | "variables" => do
      let others ← items? rest
      return .declarations (variableNames children) :: others
    | "block" => do
      let head ← head? attributes
      let content ← content? children
      let others ← items? rest
      return .stack head content :: others
    | _ => items? rest

end Outline

end BlockCompiler
