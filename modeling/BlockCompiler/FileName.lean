import BlockCompiler.Text.Blank

set_option autoImplicit false

/-! # Names of files on a card

The card's file system takes a stem of up to eight characters and an extension of up to three.
Longer names are cut. A text names a file if it matches the pattern

  `^\s*([A-Za-z0-9_~-]+)(?:\.([A-Za-z0-9]+))?\s*$`

where `\s` is Unicode white space and `$` the very end of the text. The first group is the stem, the
second one the extension. No character is in two of the classes `\s`, `[A-Za-z0-9_~-]` and `\.`, so
the pattern matches in one way at most: the blanks at both ends are trimmed, and what is left is cut at
the first character that is none of a stem. -/

namespace BlockCompiler.FileName

/-- A text that is no file name, trimmed. -/
structure Invalid where
  text : String
  deriving Repr, DecidableEq

/-- What is said of a text that is no file name. -/
def Invalid.message (i : Invalid) : String :=
  "\"" ++ i.text ++ "\" is not a valid SD card file name"

/-- The characters of a stem, those of `[A-Za-z0-9_~-]`. -/
def isStemChar (c : Char) : Bool := c.isAlphanum || c = '_' || c = '~' || c = '-'

/-- Stem and extension of a name, the groups of the pattern; without a point the extension is
`standard`. -/
def parts? (standard : List Char) (cs : List Char) : Option (List Char × List Char) :=
  let stem := cs.takeWhile isStemChar
  if stem.isEmpty then
    none
  else
    match cs.dropWhile isStemChar with
    | [] => some (stem, standard)
    | '.' :: extension =>
      if !extension.isEmpty && extension.all Char.isAlphanum then some (stem, extension) else none
    | _ => none

/-- The short name that a text gives, blanks around it ignored. -/
def short (text standard : String) : Except Invalid String :=
  match parts? standard.toList (Text.trim text.toList) with
  | some (stem, extension) => .ok (String.ofList (stem.take 8 ++ '.' :: extension.take 3))
  | none => .error ⟨Text.trimmed text⟩

end BlockCompiler.FileName
