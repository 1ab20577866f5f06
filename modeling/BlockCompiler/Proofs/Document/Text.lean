import BlockCompiler.CommandLine.Xml

set_option autoImplicit false

/-! # Texts that are known

What a text is read as, decided from its characters. -/

namespace BlockCompiler.Document

/-- The document that characters spell, if they spell one. -/
def ofChars? (cs : List Char) : Option Document := do
  let tokens ← Markup.Token.ofDocument? (cs.dropWhile (· == byteOrderMark))
  let b ← tokens.foldlM Markup.Builder.take? {}
  let root ← b.finish?
  (ofRoot root).toOption

theorem toOption_ofText (cs : List Char) : (ofText (String.ofList cs)).toOption = ofChars? cs := by
  unfold ofText load ofChars? Markup.Element.ofDocument?
  simp only [String.toList_ofList]
  cases Markup.Token.ofDocument? (cs.dropWhile (· == byteOrderMark)) with
  | none => rfl
  | some tokens =>
    simp only [Option.bind_eq_bind, Option.bind_some]
    cases tokens.foldlM Markup.Builder.take? {} with
    | none => rfl
    | some b =>
      simp only [Option.bind_some]
      cases b.finish? with
      | none => rfl
      | some root => rfl

/-- What a text is read as can be decided from its characters, without faults and without taking a
string apart. -/
theorem ofText_of_chars {source : String} {cs : List Char} {d : Document}
    (hsource : source = String.ofList cs) (h : ofChars? cs = some d) : ofText source = .ok d := by
  rw [← toOption_ofText, ← hsource] at h
  cases hd : ofText source with
  | error fault => rw [hd] at h; cases h
  | ok d' =>
    rw [hd] at h
    exact congrArg Except.ok (Option.some_inj.1 h)

theorem append_eq_ofList {first second : String} {cs ds : List Char} (h : first = String.ofList cs)
    (h' : second = String.ofList ds) : first ++ second = String.ofList (cs ++ ds) := by
  rw [h, h', String.ofList_append]

end BlockCompiler.Document
