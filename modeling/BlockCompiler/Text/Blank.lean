set_option autoImplicit false

/-! # Blank characters

Which characters count as white space, and trimming a text of them. The set is Unicode's
`White_Space` property, so no-break and ideographic spaces are blank as well. -/

namespace BlockCompiler.Text

/-- Unicode's `White_Space` property. -/
def isBlank (c : Char) : Bool :=
  let n := c.toNat
  (9 ≤ n && n ≤ 13) || n == 0x20 || n == 0x85 || n == 0xA0 || n == 0x1680 ||
    (0x2000 ≤ n && n ≤ 0x200A) || n == 0x2028 || n == 0x2029 || n == 0x202F || n == 0x205F ||
    n == 0x3000

/-- The characters without the blank ones they start with. -/
def trimLeft (cs : List Char) : List Char := cs.dropWhile isBlank

/-- The characters without the blank ones they end with. -/
def trimRight (cs : List Char) : List Char := (cs.reverse.dropWhile isBlank).reverse

/-- The characters without the blank ones at both ends. -/
def trim (cs : List Char) : List Char := trimRight (trimLeft cs)

/-- Whether only blank characters occur. -/
def allBlank (cs : List Char) : Bool := cs.all isBlank

/-- A text trimmed at both ends. -/
def trimmed (s : String) : String := String.ofList (trim s.toList)

/-- A text trimmed at its end. -/
def trimmedRight (s : String) : String := String.ofList (trimRight s.toList)

@[simp] theorem trim_nil : trim [] = [] := rfl

/-- Where nothing is blank, nothing is trimmed. -/
theorem trim_eq_self {cs : List Char} (h : ∀ c ∈ cs, isBlank c = false) : trim cs = cs := by
  have hleft : ∀ ds : List Char, (∀ c ∈ ds, isBlank c = false) → ds.dropWhile isBlank = ds := by
    intro ds hds
    cases ds with
    | nil => rfl
    | cons d ds =>
      exact List.dropWhile_cons_of_neg (Bool.eq_false_iff.1 (hds d List.mem_cons_self))
  rw [trim, trimLeft, trimRight, hleft cs h, hleft cs.reverse, List.reverse_reverse]
  exact fun c hc => h c (List.mem_reverse.1 hc)

end BlockCompiler.Text
