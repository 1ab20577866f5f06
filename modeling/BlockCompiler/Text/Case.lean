import BlockCompiler.Text.CaseTable

set_option autoImplicit false

/-! # Changing case

Lower case by Unicode's full mapping, and the capitals of words made of ASCII letters. -/

namespace BlockCompiler.Text

/-- A letter that has case. -/
def isCased (c : Char) : Bool := CaseTable.within CaseTable.cased c.toNat

/-- A character that case rules look through. -/
def isCaseIgnorable (c : Char) : Bool := CaseTable.within CaseTable.ignorable c.toNat

/-- The small partner of a capital; any other character is its own. -/
def lowerChar (c : Char) : Char :=
  match CaseTable.capitals.find? fun run =>
      run.first ≤ c.toNat && c.toNat ≤ run.last && (c.toNat - run.first) % run.step == 0 with
  | some run => Char.ofNat (c.toNat + run.shift).toNat
  | none => c

/-- Whether the nearest character that is not ignorable is a letter with case. -/
def meetsCased (cs : List Char) : Bool :=
  match cs.dropWhile isCaseIgnorable with
  | [] => false
  | c :: _ => isCased c

/-- Lower case of what follows `before`, which holds the characters already read, last one first.
A capital sigma is final after a letter and not before one; a dotted capital I keeps its dot. -/
def lowerAfter : List Char → List Char → List Char
  | _, [] => []
  | before, c :: rest =>
    let small :=
      if c = 'Σ' then
        [if meetsCased before && !meetsCased rest then 'ς' else 'σ']
      else if c = 'İ' then
        ['i', Char.ofNat 0x307]
      else
        [lowerChar c]
    small ++ lowerAfter (c :: before) rest

/-- A text in lower case. -/
def lower (s : String) : String := String.ofList (lowerAfter [] s.toList)

/-- The capital of a character where that capital is an ASCII letter: besides the ASCII letters,
the dotless i and the long s have one. -/
def asciiCapital (c : Char) : Char :=
  if c = 'ı' then 'I' else if c = 'ſ' then 'S' else c.toUpper

/-- A text as it compares with words of ASCII capitals. Characters with longer capitals give
double letters, `FI`, `FL` or `ST` or carry marks, so a word without those is met by no other text. -/
def asciiCapitals (s : String) : String := String.ofList (s.toList.map asciiCapital)

/-- Equality up to the case of ASCII letters. -/
def equalIgnoringCase (s t : String) : Bool :=
  s.toList.map Char.toLower == t.toList.map Char.toLower

end BlockCompiler.Text
