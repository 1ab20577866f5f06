import BlockCompiler.Text.Blank

set_option autoImplicit false

/-! # Lines

Cutting a text into pieces and lines, and indenting the lines that hold something. -/

namespace BlockCompiler.Text

/-- The pieces between the separators: one more than there are separators. -/
def pieces (separator : Char) : List Char → List (List Char)
  | [] => [[]]
  | c :: cs =>
    if c = separator then
      [] :: pieces separator cs
    else
      match pieces separator cs with
      | [] => [[c]]
      | piece :: rest => (c :: piece) :: rest

/-- The lines of a text, each with the line feed that ends it. -/
def lines : List Char → List (List Char)
  | [] => []
  | c :: cs =>
    if c = '\n' then
      [c] :: lines cs
    else
      match lines cs with
      | [] => [[c]]
      | line :: rest => (c :: line) :: rest

/-- A line with `lead` in front of it; a blank line stays as it is. -/
def indentLine (lead line : List Char) : List Char :=
  if allBlank line then line else lead ++ line

/-- Every line of `text` that is not blank moved in by `lead`. -/
def indent (text lead : String) : String :=
  String.ofList ((lines text.toList).flatMap (indentLine lead.toList))

/-- Whether a text ends with a line feed. -/
def endsLine (s : String) : Bool := s.toList.getLast? == some '\n'

/-- A text closed by a line feed, which is added only where it is missing. -/
def closeLine (s : String) : String := if endsLine s then s else s ++ "\n"

/-- Whether `part` occurs somewhere in the characters. -/
def occurs (part : List Char) : List Char → Bool
  | [] => part.isEmpty
  | c :: cs => part.isPrefixOf (c :: cs) || occurs part cs

/-- The lines cut a text without loss. -/
theorem flatten_lines (cs : List Char) : (lines cs).flatten = cs := by
  induction cs with
  | nil => rfl
  | cons c cs ih =>
    by_cases h : c = '\n'
    · simp [lines, h, ih]
    · simp only [lines, if_neg h]
      split <;> rename_i hl <;> rw [hl] at ih <;> simp_all

end BlockCompiler.Text
