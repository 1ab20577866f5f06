import BlockCompiler.Ledger

set_option autoImplicit false

/-! # Markup trees

The content of a well-formed document as far as its readers care: elements with their attributes and
children, and pieces of text. -/

namespace BlockCompiler.Markup

/-- An element or a piece of text. -/
inductive Node where
  | element (name : String) (attributes : Ledger String) (children : List Node)
  | text (content : String)

/-- An element by itself. -/
structure Element where
  name : String
  attributes : Ledger String
  children : List Node

/-- A parser of markup: it finds the root of a text that is well-formed. -/
abbrev Parser : Type := String → Option Element

/-- The element as a node. -/
def Element.node (e : Element) : Node := .element e.name e.attributes e.children

/-- Whether a node is an element of the given name. -/
def Node.isNamed (name : String) : Node → Bool
  | .element found _ _ => found == name
  | .text _ => false

/-- The pieces of text among the nodes, joined; texts inside of elements do not count. -/
def ownText : List Node → String
  | [] => ""
  | .text content :: rest => content ++ ownText rest
  | .element _ _ _ :: rest => ownText rest

end BlockCompiler.Markup
