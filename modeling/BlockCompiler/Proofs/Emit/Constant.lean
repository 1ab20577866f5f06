import BlockCompiler.Proofs.Emit.Clamp

set_option autoImplicit false

/-! # Constants of number blocks

A number block yields a constant of C, whatever its text: an integer without leading zeros, a
hexadecimal integer, or a number with digits on both sides of its point. There is one exception. A
hexadecimal text is yielded as it was written if its digits are read as an integer, and these may have
a sign behind the mark, where C allows none. -/

namespace BlockCompiler

namespace Text

/-! ## Constants of C -/

/-- Characters are a constant of C, with a minus sign in front of it or none. -/
inductive IsConstant : List Char → Prop
  | integer {radix : Radix} {cs : List Char} {n : Int} : Spells radix cs n → IsConstant cs
  | floating {sign cs : List Char} : IsSign sign → IsFloating cs → IsConstant (sign ++ cs)

/-- A hexadecimal number of 64 bits with a sign behind its mark. -/
def IsSignedHex (cs : List Char) : Prop :=
  ∃ mark sign digits, (mark = 'x' ∨ mark = 'X') ∧ (sign = '+' ∨ sign = '-') ∧
    cs = '0' :: mark :: sign :: digits ∧ (signed? 16 (sign :: digits)).isSome = true

theorem spells_toDigits (n : Nat) : Spells .decimal (Nat.toDigits 10 n) n := by
  refine .decimal (digits?_toDigits n) ?_
  by_cases hn : n = 0
  · subst hn
    exact .inl rfl
  · exact .inr (Expression.head?_toDigits hn)

/-- The text of an integer spells it. -/
theorem spells_toString (n : Int) : Spells .decimal (toString n).toList n := by
  rw [toList_toString]
  cases n with
  | ofNat n => exact spells_toDigits n
  | negSucc n => exact .minus (Expression.head?_toDigits_ne (by decide) _) (spells_toDigits (n + 1))

theorem isConstant_zero : IsConstant "0".toList := .integer (spells_toString 0)

theorem minus_mem_iff_of_not_mem {cs : List Char} (h : '-' ∉ cs) :
    '-' ∈ cs ↔ cs.head? = some '-' :=
  iff_of_false h fun hhead => h (List.mem_of_mem_head? hhead)

/-- A minus sign in an integer stands in front of it. -/
theorem Spells.minus_mem_iff {radix : Radix} {cs : List Char} {n : Int} (h : Spells radix cs n) :
    '-' ∈ cs ↔ cs.head? = some '-' := by
  cases h with
  | decimal hread => exact minus_mem_iff_of_not_mem (not_mem_of_digits? hread rfl)
  | @hexadecimal _ cs _ hmark hread =>
    have hcs : '-' ∉ cs := not_mem_of_digits? hread rfl
    refine minus_mem_iff_of_not_mem ?_
    rcases hmark with rfl | rfl <;> simp [hcs]
  | minus => exact iff_of_true List.mem_cons_self rfl

/-- A minus sign in a constant stands in front of it. -/
theorem IsConstant.minus_mem_iff {cs : List Char} (h : IsConstant cs) :
    '-' ∈ cs ↔ cs.head? = some '-' := by
  cases h with
  | integer h => exact h.minus_mem_iff
  | floating hsign hcs =>
    rcases hsign with rfl | rfl
    · refine minus_mem_iff_of_not_mem fun hmem => ?_
      rcases hcs.isDigit_of_mem hmem with hdigit | hpoint
      · cases hdigit
      · cases hpoint
    · exact iff_of_true List.mem_cons_self rfl

/-- No constant has a sign behind its mark. -/
theorem IsSignedHex.not_isConstant {cs : List Char} (h : IsSignedHex cs) : ¬IsConstant cs := by
  obtain ⟨mark, sign, digits, hmark, hsign, rfl, -⟩ := h
  intro hconstant
  generalize hcs : '0' :: mark :: sign :: digits = cs at hconstant
  cases hconstant with
  | integer h =>
    subst hcs
    -- the mark makes the constant a hexadecimal one, and the sign is none of its digits
    obtain rfl := h.of_mark hmark
    cases h with
    | hexadecimal _ hread =>
      have hdigit : digit? 16 sign = none := by rcases hsign with rfl | rfl <;> rfl
      exact not_mem_of_digits? hread hdigit List.mem_cons_self
  | floating hminus hfloating =>
    have hmem : mark ∈ '0' :: mark :: sign :: digits := List.mem_cons_of_mem _ List.mem_cons_self
    rw [hcs] at hmem
    rcases hfloating.isNumeral_of_mem hminus hmem with hnumeral | rfl
    · rcases hmark with rfl | rfl <;> cases hnumeral
    · rcases hmark with hmark | hmark <;> cases hmark

/-- A number without a sign is read as its digits. -/
theorem digits?_of_signed? {base : Nat} {cs : List Char} {n : Int} (h : signed? base cs = some n)
    (hplus : cs.head? ≠ some '+') (hminus : cs.head? ≠ some '-') : ∃ m, digits? base cs = some m := by
  have hsign : splitSign cs = (false, cs) := by
    unfold splitSign
    split
    · exact absurd rfl hminus
    · exact absurd rfl hplus
    · rfl
  rw [signed?, hsign] at h
  obtain ⟨hvalue, -⟩ := Option.filter_eq_some_iff.1 h
  obtain ⟨m, hm, -⟩ := Option.map_eq_some_iff.1 hvalue
  exact ⟨m, hm⟩

end Text

open Text

/-- What starts like a hexadecimal number is no decimal one. -/
theorem Decimal.Binary64.ofChars?_mark {mark : Char} (hmark : mark = 'x' ∨ mark = 'X')
    (cs : List Char) : ofChars? ('0' :: mark :: cs) = none := by
  have hword : ∀ word : String, word.toList.head? ≠ some '0' →
      (String.ofList (('0' :: mark :: cs).map Char.toLower) == word) = false := by
    intro word hhead
    rw [beq_eq_false_iff_ne]
    rintro rfl
    exact hhead (by simp)
  have hunsigned : Numeral.unsigned? false ('0' :: mark :: cs) = none := by
    rcases hmark with rfl | rfl <;> rfl
  have hnumeral : Numeral.ofChars? ('0' :: mark :: cs) = none := by
    have hsign : splitSign ('0' :: mark :: cs) = (false, '0' :: mark :: cs) := rfl
    unfold Numeral.ofChars?
    simp only [hsign, hword "inf" (by simp), hword "infinity" (by simp), hword "nan" (by simp),
      Bool.or_self, Bool.false_eq_true, if_false]
    exact hunsigned
  rw [ofChars?, hnumeral]
  rfl

namespace Emit

/-! ## Number blocks -/

theorem isConstant_floatLiteral (x : Decimal.Binary64) : IsConstant (floatLiteral x).toList := by
  rcases floatLiteral_cases x with hzero | ⟨sign, cs, hsign, hcs, htext⟩
  · rw [hzero]
    exact isConstant_zero
  · rw [htext]
    exact .floating hsign hcs

/-- A hexadecimal text is yielded as it was written. -/
theorem numberLiteral_of_isSignedHex {text : String} (h : IsSignedHex (trim text.toList)) :
    numberLiteral text = trimmed text := by
  obtain ⟨mark, sign, digits, hmark, -, hcs, hread⟩ := h
  have hhex : isHexLiteral (trim text.toList) = true :=
    isHexLiteral_iff.2 ⟨mark, sign :: digits, hmark, hcs, hread⟩
  have hsigned : signed? 10 ('0' :: mark :: sign :: digits) = none := by
    refine signed?_of_not_digit (List.mem_cons_of_mem _ List.mem_cons_self) ?_ ?_ <;>
      rcases hmark with rfl | rfl <;> decide
  unfold numberLiteral
  rw [hcs] at hhex ⊢
  simp only [hsigned, Decimal.Binary64.ofChars?_mark hmark, hhex, if_true]
  rw [trimmed, hcs]

theorem isConstant_numberLiteral {text : String} (h : ¬IsSignedHex (trim text.toList)) :
    IsConstant (numberLiteral text).toList := by
  -- only the third of the readers keeps the text, the others print the number they read
  unfold numberLiteral
  dsimp only
  split
  · exact .integer (spells_toString _)
  · split
    · exact isConstant_floatLiteral _
    · split
      · next hhex =>
        obtain ⟨mark, digits, hmark, hcs, hread⟩ := isHexLiteral_iff.1 hhex
        have hsign : ∀ sign, sign = '+' ∨ sign = '-' → digits.head? ≠ some sign := by
          rintro sign hsign hhead
          obtain ⟨rest, rfl⟩ := List.head?_eq_some_iff.1 hhead
          exact h ⟨mark, sign, rest, hmark, hsign, hcs, hread⟩
        obtain ⟨n, hn⟩ := Option.isSome_iff_exists.1 hread
        obtain ⟨m, hm⟩ := digits?_of_signed? hn (hsign '+' (.inl rfl)) (hsign '-' (.inr rfl))
        rw [String.toList_ofList, hcs]
        exact .integer (.hexadecimal hmark hm)
      · exact isConstant_zero

end Emit

namespace Project

/-- In every state and without a change to it, a number block yields an operand that is a constant of C,
as strong as its sign allows, unless its text is a hexadecimal number with a sign behind the mark; such
a text is yielded as it was written, as if it had no sign. -/
theorem number_isConstant_iff (p : Project) (b : Block) : ∃ o : Operand,
    (∀ s, p.run (Emit.number p b) s = (o, s)) ∧
      (IsConstant o.text.toList ↔ ¬IsSignedHex (trim (p.field b "NUM").toList)) ∧
      (¬IsSignedHex (trim (p.field b "NUM").toList) →
        o.order = if '-' ∈ o.text.toList then .unaryPrefix else .atomic) ∧
      (IsSignedHex (trim (p.field b "NUM").toList) → o = .atom (trimmed (p.field b "NUM"))) := by
  refine ⟨_, fun s => rfl, ⟨fun hconstant hsigned => ?_, Emit.isConstant_numberLiteral⟩,
    fun hsigned => ?_, fun hsigned => ?_⟩
  · rw [Emit.numberLiteral_of_isSignedHex hsigned, trimmed, String.toList_ofList] at hconstant
    exact hsigned.not_isConstant hconstant
  · have hminus := (Emit.isConstant_numberLiteral hsigned).minus_mem_iff
    simp only [hminus, beq_iff_eq]
  · rw [Emit.numberLiteral_of_isSignedHex hsigned]
    obtain ⟨mark, sign, digits, -, -, hcs, -⟩ := hsigned
    rw [trimmed, hcs]
    simp only [String.toList_ofList]
    rfl

/-- A number block with a sign behind the mark of its text. -/
def misplaced : Project where
  workspace :=
    { blocks := #[{ id := "number", type := "math_number", fields := ⟨[("NUM", "0x-1")]⟩ }]
      top := [0]
      index := [0] }

theorem number_isConstant_iff_misplaced : ∃ b, misplaced.workspace.block? 0 = some b ∧
    IsSignedHex (trim (misplaced.field b "NUM").toList) ∧ ¬IsConstant "0x-1".toList ∧
    ∀ s, misplaced.run (Emit.number misplaced b) s = (.atom "0x-1", s) := by
  have htext : misplaced.field misplaced.workspace.blocks[0] "NUM" = "0x-1" := rfl
  have hsigned : IsSignedHex (trim "0x-1".toList) :=
    ⟨'x', '-', ['1'], .inl rfl, .inr rfl, by decide +kernel, rfl⟩
  obtain ⟨o, hrun, hconstant, -, hverbatim⟩ :=
    number_isConstant_iff misplaced misplaced.workspace.blocks[0]
  rw [htext] at hconstant hverbatim
  have ho : o = .atom "0x-1" := (hverbatim hsigned).trans (by decide +kernel)
  subst ho
  exact ⟨_, rfl, htext ▸ hsigned, fun h => hconstant.1 h hsigned, hrun⟩

end Project

end BlockCompiler
