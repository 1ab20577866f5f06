import BlockCompiler.Text.Quoted
import Mathlib.Data.List.TakeWhile

set_option autoImplicit false

/-! # Texts that are literals

The code of a value is either the literal that a text was quoted as, or it starts as no literal does.
So whatever is put together of such code is not taken for one literal. -/

namespace BlockCompiler.Text

/-! ## Trimming -/

theorem trimRight_cons {c : Char} (h : isBlank c = false) (cs : List Char) :
    trimRight (c :: cs) = c :: trimRight cs := by
  unfold trimRight
  rw [List.reverse_cons, List.dropWhile_append]
  split
  · next hempty =>
    rw [List.isEmpty_iff.1 hempty, List.dropWhile_cons_of_neg (by simp [h])]
    rfl
  · rw [List.reverse_append]
    rfl

theorem trim_cons {c : Char} (h : isBlank c = false) (cs : List Char) :
    trim (c :: cs) = c :: trimRight cs := by
  rw [trim, trimLeft, List.dropWhile_cons_of_neg (by simp [h]), trimRight_cons h]

/-- What stands in front of a visible character is not trimmed off at the end. -/
theorem trimRight_append_cons {c : Char} (h : isBlank c = false) (front cs : List Char) :
    trimRight (front ++ c :: cs) = front ++ c :: trimRight cs := by
  induction front with
  | nil => exact trimRight_cons h cs
  | cons d front ih =>
    unfold trimRight at *
    rw [List.cons_append, List.reverse_cons, List.dropWhile_append]
    have hne : ((front ++ c :: cs).reverse.dropWhile isBlank).isEmpty = false := by
      rw [← List.isEmpty_reverse, ih]
      simp
    rw [hne, if_neg Bool.false_ne_true, List.reverse_append, ih]
    rfl

/-! ## Literals -/

/-- An escape ends as it began, in front of a character that is not escaped. -/
theorem quotesEscaped_escape (cs rest : List Char) :
    quotesEscaped false (escape cs ++ rest) = quotesEscaped false rest := by
  induction cs with
  | nil => rfl
  | cons c cs ih =>
    have hchar : ∀ rest, quotesEscaped false (escapeChar c ++ rest) = quotesEscaped false rest := by
      intro rest
      unfold escapeChar
      split
      · rfl
      · rfl
      · rfl
      · rfl
      · next hbackslash hquote _ _ =>
        rw [List.singleton_append, quotesEscaped, if_neg hbackslash, if_neg hquote]
    rw [escape, List.flatMap_cons, List.append_assoc, hchar]
    exact ih

theorem literalBody?_of_quotes {body : String} (h : quotesEscaped false body.toList = true) :
    literalBody? ("\"" ++ body ++ "\"") = some body := by
  have hchars : ("\"" ++ body ++ "\"").toList = '"' :: (body.toList ++ ['"']) := by
    rw [String.toList_append, String.toList_append]
    rfl
  have htrim : trimRight (body.toList ++ ['"']) = body.toList ++ ['"'] :=
    trimRight_append_cons (c := '"') rfl body.toList []
  unfold literalBody? literalChars?
  rw [hchars, trim_cons rfl, htrim]
  simp only [List.getLast?_concat, List.dropLast_concat, h, beq_self_eq_true, Bool.and_self, if_true,
    Option.map_some, String.ofList_toList]

/-- No line ends within an escaped text. -/
theorem not_mem_escape {c : Char} (h : c = '\n' ∨ c = '\r') (cs : List Char) : c ∉ escape cs := by
  intro hmem
  obtain ⟨d, -, hd⟩ := List.mem_flatMap.1 hmem
  unfold escapeChar at hd
  split at hd <;> grind

/-- No literal starts with the text. -/
def IsOpen (text : String) : Prop := ∀ rest, literalBody? (text ++ rest) = none

theorem IsOpen.append {text : String} (h : IsOpen text) (rest : String) : IsOpen (text ++ rest) := by
  intro rest'
  rw [String.append_assoc]
  exact h (rest ++ rest')

theorem IsOpen.not_literal {text : String} (h : IsOpen text) : literalBody? text = none := by
  have hnone := h ""
  rwa [String.append_empty] at hnone

/-- A literal starts with a quote. -/
theorem isOpen_of_head? {text : String} {c : Char} (h : text.toList.head? = some c)
    (hvisible : isBlank c = false) (hquote : c ≠ '"') : IsOpen text := by
  intro rest
  obtain ⟨cs, hcs⟩ : ∃ cs, text.toList = c :: cs := by
    cases hchars : text.toList with
    | nil => rw [hchars] at h; cases h
    | cons d cs =>
      rw [hchars] at h
      exact ⟨cs, by rw [Option.some_inj.1 h]⟩
  unfold literalBody? literalChars?
  rw [String.toList_append, hcs, List.cons_append, trim_cons hvisible]
  split
  · next heq => exact absurd (List.cons.inj heq).1 hquote
  · rfl

/-- A literal ends with the quote that closes it. -/
theorem isOpen_quote_append (s : String) {rest : String} {c : Char} (hc : c ∈ rest.toList)
    (hvisible : isBlank c = false) : IsOpen (quote s ++ rest) := by
  intro more
  obtain ⟨front, back, hrest⟩ := List.append_of_mem hc
  have hchars : (quote s ++ rest ++ more).toList =
      '"' :: (escape s.toList ++ '"' :: front ++ c :: (back ++ more.toList)) := by
    simp [quote, hrest]
  unfold literalBody? literalChars?
  rw [hchars, trim_cons rfl, trimRight_append_cons hvisible]
  generalize trimRight (back ++ more.toList) = tail
  -- the quote that closes the literal is not the last character
  have hquotes : quotesEscaped false
      (escape s.toList ++ '"' :: front ++ c :: tail).dropLast = false := by
    rw [List.dropLast_append_of_ne_nil (List.cons_ne_nil _ _), List.append_assoc,
      quotesEscaped_escape]
    rfl
  split
  · next heq =>
    obtain ⟨-, rfl⟩ := List.cons.inj heq
    rw [hquotes, Bool.and_false, if_neg Bool.false_ne_true]
    rfl
  · rfl

/-- A text is the literal of some text, or no literal starts with it. -/
def IsSettled (text : String) : Prop := (∃ s, text = quote s) ∨ IsOpen text

/-- What goes on visibly behind a settled text is no literal. -/
theorem IsSettled.isOpen_append {text : String} (h : IsSettled text) {rest : String} {c : Char}
    (hc : c ∈ rest.toList) (hvisible : isBlank c = false) : IsOpen (text ++ rest) := by
  rcases h with ⟨s, rfl⟩ | h
  · exact isOpen_quote_append s hc hvisible
  · exact h.append rest

end BlockCompiler.Text
