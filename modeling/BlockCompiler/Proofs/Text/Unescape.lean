import BlockCompiler.Proofs.Text.Quoted
import Mathlib.Data.String.Basic

set_option autoImplicit false

/-! # Reading literals back

What the body of a C literal stands for. An escape is read as one character, whatever it was written
for, so that quoting loses nothing: the literal of a text reads back as the text, and no other text has
the same literal. The length of a literal counts the characters that are read; it is a number of bytes
only where each of them takes one byte. -/

namespace BlockCompiler.Text

/-! ## Escapes -/

/-- The character that a letter behind a backslash stands for. -/
def escaped? : Char → Option Char
  | '\\' => some '\\'
  | '"' => some '"'
  | 'r' => some '\r'
  | 'n' => some '\n'
  | _ => none

/-- Whether a character can stand in a literal as it is. -/
def isBare (c : Char) : Bool := c != '\\' && c != '"' && c != '\r' && c != '\n'

/-- The characters that the body of a literal stands for. An unknown escape, a quote and the end of a
line make it no body of a literal. -/
def unescape? : List Char → Option (List Char)
  | [] => some []
  | '\\' :: c :: cs => do return (← escaped? c) :: (← unescape? cs)
  | c :: cs => if isBare c then (unescape? cs).map (c :: ·) else none

/-- A character stands in a literal as it is, or as a letter behind a backslash that is read as it. -/
theorem escapeChar_cases (c : Char) : isBare c = true ∧ escapeChar c = [c] ∨
    ∃ letter, escaped? letter = some c ∧ escapeChar c = ['\\', letter] := by
  unfold escapeChar
  split
  · exact .inr ⟨'\\', rfl, rfl⟩
  · exact .inr ⟨'"', rfl, rfl⟩
  · exact .inr ⟨'r', rfl, rfl⟩
  · exact .inr ⟨'n', rfl, rfl⟩
  · next hbackslash hquote hreturn hline =>
    refine .inl ⟨?_, rfl⟩
    simp only [isBare, Bool.and_eq_true, bne_iff_ne]
    exact ⟨⟨⟨hbackslash, hquote⟩, hreturn⟩, hline⟩

theorem unescape?_of_isBare {c : Char} (h : isBare c = true) (cs : List Char) :
    unescape? (c :: cs) = (unescape? cs).map (c :: ·) := by
  rw [unescape?.eq_3, if_pos h]
  rintro d ds rfl rfl
  cases h

/-- A character is read back from the front of a body. -/
theorem unescape?_escapeChar_append (c : Char) (cs : List Char) :
    unescape? (escapeChar c ++ cs) = (unescape? cs).map (c :: ·) := by
  rcases escapeChar_cases c with ⟨hbare, hchar⟩ | ⟨letter, hletter, hchar⟩
  · rw [hchar, List.singleton_append, unescape?_of_isBare hbare]
  · rw [hchar, List.cons_append, List.singleton_append, unescape?, hletter]
    cases unescape? cs <;> rfl

theorem unescape?_escape (cs : List Char) : unescape? (escape cs) = some cs := by
  induction cs with
  | nil => rfl
  | cons c cs ih =>
    rw [escape, List.flatMap_cons, unescape?_escapeChar_append]
    exact congrArg (Option.map (c :: ·)) ih

/-! ## Quoting -/

theorem quote_eq (t : String) : quote t = "\"" ++ String.ofList (escape t.toList) ++ "\"" := by
  refine String.toList_inj.1 ?_
  simp [quote]

/-- An escaped text between quotes is a literal. -/
theorem literalBody?_of_escape {body : String} {cs : List Char} (h : body.toList = escape cs) :
    literalBody? ("\"" ++ body ++ "\"") = some body := by
  refine literalBody?_of_quotes ?_
  rw [h, ← List.append_nil (escape cs), quotesEscaped_escape]
  rfl

theorem literalBody?_quote (t : String) :
    literalBody? (quote t) = some (String.ofList (escape t.toList)) := by
  rw [quote_eq]
  exact literalBody?_of_escape String.toList_ofList

/-- Writes `text` for every `c`. -/
def replace (c : Char) (text : List Char) (cs : List Char) : List Char :=
  cs.flatMap fun d => if d = c then text else [d]

theorem replace_append (c : Char) (text cs ds : List Char) :
    replace c text (cs ++ ds) = replace c text cs ++ replace c text ds :=
  List.flatMap_append

theorem replace_of_ne {c d : Char} (h : d ≠ c) (text : List Char) : replace c text [d] = [d] := by
  rw [replace, List.flatMap_singleton, if_neg h]

/-- The escapes can be written by one replacement after the other, of which none changes what an
earlier one wrote: the backslashes come first. -/
theorem escape_eq_replace (cs : List Char) : escape cs =
    replace '\n' ['\\', 'n'] (replace '\r' ['\\', 'r']
      (replace '"' ['\\', '"'] (replace '\\' ['\\', '\\'] cs))) := by
  induction cs with
  | nil => rfl
  | cons c cs ih =>
    have hchar : escapeChar c = replace '\n' ['\\', 'n'] (replace '\r' ['\\', 'r']
        (replace '"' ['\\', '"'] (replace '\\' ['\\', '\\'] [c]))) := by
      unfold escapeChar
      split
      · rfl
      · rfl
      · rfl
      · rfl
      · next hbackslash hquote hreturn hline =>
        rw [replace_of_ne hbackslash, replace_of_ne hquote, replace_of_ne hreturn,
          replace_of_ne hline]
    rw [← List.singleton_append, escape, List.flatMap_append, List.flatMap_singleton]
    simp only [replace_append]
    rw [← hchar, ← ih]
    rfl

/-- The literal of a text is the body between two quotes that is found in it; the body is written by
replacements, stays on its line and reads back as the text. So texts with one literal are one text. -/
theorem quote_readsBack :
    (∀ t, ∃ body, literalBody? (quote t) = some body ∧ quote t = "\"" ++ body ++ "\"" ∧
      body.toList = replace '\n' ['\\', 'n'] (replace '\r' ['\\', 'r']
        (replace '"' ['\\', '"'] (replace '\\' ['\\', '\\'] t.toList))) ∧
      '\n' ∉ body.toList ∧ '\r' ∉ body.toList ∧ unescape? body.toList = some t.toList) ∧
    Function.Injective quote := by
  constructor
  · intro t
    refine ⟨_, literalBody?_quote t, quote_eq t, ?_⟩
    rw [String.toList_ofList]
    exact ⟨escape_eq_replace _, not_mem_escape (.inl rfl) _, not_mem_escape (.inr rfl) _,
      unescape?_escape _⟩
  · intro t t' heq
    have hbody := literalBody?_quote t
    rw [heq, literalBody?_quote, Option.some_inj, String.ofList_inj] at hbody
    have hread := congrArg unescape? hbody
    rw [unescape?_escape, unescape?_escape, Option.some_inj, String.toList_inj] at hread
    exact hread.symm

/-! ## Lengths -/

/-- The length of a body is the number of characters that it stands for. -/
theorem literalCount_escape (cs : List Char) : literalCount (escape cs) = cs.length := by
  have hchar : ∀ c rest, literalCount (escapeChar c ++ rest) = literalCount rest + 1 := by
    intro c rest
    rcases escapeChar_cases c with ⟨hbare, hchar⟩ | ⟨letter, -, hchar⟩
    · have hbackslash : c ≠ '\\' := by
        rintro rfl
        cases hbare
      rw [hchar, List.singleton_append, literalCount]
      · exact fun hc _ => hbackslash hc
      · exact fun d ds hc _ => hbackslash hc
    · rw [hchar]
      rfl
  induction cs with
  | nil => rfl
  | cons c cs ih =>
    rw [escape, List.flatMap_cons, hchar]
    exact congrArg (· + 1) ih

theorem length_le_utf8Len (cs : List Char) : cs.length ≤ String.utf8Len cs := by
  induction cs with
  | nil => exact Nat.le_refl 0
  | cons c cs ih => exact Nat.add_le_add ih c.utf8Size_pos

/-- A text has as many bytes as characters if each character is one of the first 128. -/
theorem length_eq_utf8Len_iff {cs : List Char} :
    cs.length = String.utf8Len cs ↔ ∀ c ∈ cs, c.toNat < 128 := by
  induction cs with
  | nil => simp
  | cons c cs ih =>
    have hone : c.utf8Size = 1 ↔ c.toNat < 128 := by
      rw [Char.utf8Size_eq_one_iff, UInt32.le_iff_toNat_le]
      exact Nat.lt_succ_iff.symm
    have hlength := length_le_utf8Len cs
    have hsize := c.utf8Size_pos
    rw [List.forall_mem_cons, ← ih, ← hone, List.length_cons, String.utf8Len_cons]
    omega

end BlockCompiler.Text
