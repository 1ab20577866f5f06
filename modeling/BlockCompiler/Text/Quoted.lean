import BlockCompiler.Text.Blank

set_option autoImplicit false

/-! # C string literals

Writing a text as a C string literal, and recognising a piece of C that is one literal. -/

namespace BlockCompiler.Text

/-- A character as it stands inside a literal. -/
def escapeChar : Char → List Char
  | '\\' => ['\\', '\\']
  | '"' => ['\\', '"']
  | '\r' => ['\\', 'r']
  | '\n' => ['\\', 'n']
  | c => [c]

/-- The characters between the quotes of a text's literal. -/
def escape (cs : List Char) : List Char := cs.flatMap escapeChar

/-- The C literal of a text. -/
def quote (s : String) : String := String.ofList ('"' :: escape s.toList ++ ['"'])

/-- Whether every quote stands behind a backslash; `escaped` tells whether one stands in front. -/
def quotesEscaped : Bool → List Char → Bool
  | _, [] => true
  | true, _ :: cs => quotesEscaped false cs
  | false, c :: cs =>
    if c = '\\' then quotesEscaped true cs else if c = '"' then false else quotesEscaped false cs

/-- The characters between the quotes when the code, trimmed, opens and closes with a quote and has
only escaped quotes between. -/
def literalChars? (cs : List Char) : Option (List Char) :=
  match trim cs with
  | '"' :: rest =>
    if rest.getLast? == some '"' && quotesEscaped false rest.dropLast then some rest.dropLast
    else none
  | _ => none

/-- The body of the code's string literal, if the code is one. -/
def literalBody? (code : String) : Option String :=
  (literalChars? code.toList).map String.ofList

/-- How many characters a literal's body stands for: an escape counts once. -/
def literalCount : List Char → Nat
  | [] => 0
  | ['\\'] => 1
  | '\\' :: _ :: cs => literalCount cs + 1
  | _ :: cs => literalCount cs + 1

/-- How many characters a literal's body stands for. -/
def literalLength (body : String) : Nat := literalCount body.toList

end BlockCompiler.Text
