import BlockCompiler.Fragment
import BlockCompiler.Identifier
import BlockCompiler.Proofs.Expression.Grammar

set_option autoImplicit false

/-! # Texts that write an expression

When the text of an operand is an expression of the rank that the operand's strength promises, and
how such texts are built: wrapping an operand for the place where it stands, joining operands by an
operator, and the texts of numbers and names. -/

namespace BlockCompiler.Expression

/-- An operand's text is an expression with the given tree, as tight as the operand's strength
says. An equality sign in front would join a sign of negation. -/
structure Writes (o : Operand) (e : Expression) : Prop where
  derives : Derives (o.order.level - 1) (scan o.text.toList) e
  bare : o.text.toList.head? ≠ some '='
  isOperator : o.order.level ≤ 13

/-- The rank of an operand of the operator that a place belongs to: it binds tighter than the
operator, so that it is an operand on either side. No expression is looser than a choice. -/
def operandRank (outer : Precedence) : Nat := min (outer.level - 2) 12

/-- A text stands as one operand where `outer` is asked for. -/
structure Stands (outer : Precedence) (text : String) (e : Expression) : Prop where
  derives : Derives (operandRank outer) (scan text.toList) e
  bare : text.toList.head? ≠ some '='

/-! ## Wrapping -/

/-- An operand that stands bare binds tighter than what is around it, or both are atoms. -/
theorem level_of_not_needsParens {inner outer : Precedence} (hinner : inner.level ≤ 13)
    (h : Precedence.needsParens inner outer = false) : inner.level - 1 ≤ operandRank outer := by
  revert h hinner
  cases inner <;> cases outer <;> decide

/-- Wrapping an operand leaves its tree alone and makes it one operand. -/
theorem Writes.within {o : Operand} {e : Expression} (h : Writes o e) (outer : Precedence) :
    Stands outer (o.within outer) e := by
  unfold Operand.within Precedence.wrap
  -- in parentheses an operand is an atom; without them it has to bind tightly enough
  cases hparens : Precedence.needsParens o.order outer with
  | false =>
    exact ⟨h.derives.looser (level_of_not_needsParens h.isOperator hparens), h.bare⟩
  | true =>
    have hscan : scan ("(" ++ o.text ++ ")").toList = .opening :: scan o.text.toList ++ [.closing] := by
      rw [String.toList_append, String.toList_append]
      exact scan_parens _
    have hloose : Derives 12 (scan o.text.toList) e :=
      h.derives.looser (Nat.sub_le_of_le_add h.isOperator)
    refine ⟨?_, ?_⟩
    · rw [if_pos rfl, hscan]
      exact hloose.parens.looser (Nat.zero_le _)
    · rw [if_pos rfl, String.toList_append, String.toList_append]
      exact nofun

/-- Where everything goes, any expression stands. -/
theorem Stands.loosest {outer : Precedence} {text : String} {e : Expression}
    (h : Stands outer text e) : Derives 12 (scan text.toList) e :=
  h.derives.looser (Nat.min_le_right _ _)

/-! ## Joining -/

theorem head?_append_ne {xs ys : List Char} (hx : xs.head? ≠ some '=') (hy : ys.head? ≠ some '=') :
    (xs ++ ys).head? ≠ some '=' := by
  cases xs with
  | nil => exact hy
  | cons x xs => exact hx

/-- Two operands joined by an operator. -/
theorem Writes.binary {order : Precedence} {o : Operator} {sign left right : String}
    {l r : Expression} (hrank : order.level = o.rank + 1) (hsign : sign.toList = o.sign)
    (hl : Stands order left l) (hr : Stands order right r) :
    Writes ⟨left ++ " " ++ sign ++ " " ++ right, order⟩ (.binary o l r) := by
  have htext : (left ++ " " ++ sign ++ " " ++ right).toList =
      left.toList ++ ' ' :: (o.sign ++ ' ' :: right.toList) := by
    simp [String.toList_append, hsign]
  have heleven := o.rank_le_eleven
  have hoperand : operandRank order = o.rank - 1 := by rw [operandRank, hrank]; omega
  refine ⟨?_, ?_, ?_⟩
  · have hleft : Derives o.rank (scan left.toList) l :=
      hl.derives.looser (by rw [hoperand]; exact Nat.sub_le _ _)
    -- operators of one level are taken from the left, so the right operand binds tighter
    have hright : Derives (o.rank - 1) (scan right.toList) r := hoperand ▸ hr.derives
    show Derives (order.level - 1) _ _
    rw [htext, scan_between, hrank]
    exact hleft.binary o hright
  · rw [htext]
    exact head?_append_ne hl.bare nofun
  · show order.level ≤ 13
    omega

/-- One of two operands, as their comparison turns out. -/
theorem Writes.limit {o : Operator} {sign left right : String} {l r : Expression}
    (hrank : o.rank = 5) (hsign : sign.toList = o.sign) (hl : Stands .relational left l)
    (hr : Stands .relational right r) :
    Writes ⟨left ++ " " ++ sign ++ " " ++ right ++ " ? " ++ left ++ " : " ++ right, .conditional⟩
      (.choice (.binary o l r) l r) := by
  have htest : Writes ⟨left ++ " " ++ sign ++ " " ++ right, .relational⟩ (.binary o l r) :=
    .binary (by rw [hrank]; rfl) hsign hl hr
  have htext : (left ++ " " ++ sign ++ " " ++ right ++ " ? " ++ left ++ " : " ++ right).toList =
      (left ++ " " ++ sign ++ " " ++ right).toList ++
        ' ' :: '?' :: ' ' :: (left.toList ++ ' ' :: ':' :: ' ' :: right.toList) := by
    simp [String.toList_append]
  refine ⟨?_, ?_, Nat.le_refl 13⟩
  · show Derives 12 _ _
    rw [htext, scan_append_of_breaks breaks_space, scan_space, scan_question, scan_space,
      scan_append_of_breaks breaks_space, scan_space, scan_colon, scan_space, ← List.cons_append,
      ← List.append_assoc]
    exact (htest.derives.looser (Nat.le_add_right 5 6)).choice (hl.derives.looser (by decide))
      (hr.derives.looser (by decide))
  · show (left ++ " " ++ sign ++ " " ++ right ++ " ? " ++ left ++ " : " ++ right).toList.head? ≠ _
    rw [htext]
    exact head?_append_ne htest.bare nofun

/-- A negation. -/
theorem Writes.negate {text : String} {e : Expression} (h : Stands .unaryPrefix text e) :
    Writes ⟨"!" ++ text, .unaryPrefix⟩ (.unary .not e) := by
  refine ⟨?_, ?_, Nat.le_add_right 2 11⟩
  · show Derives 1 (scan ("!" ++ text).toList) _
    rw [String.toList_append]
    show Derives 1 (scan ('!' :: text.toList)) _
    rw [scan_not h.bare]
    exact (h.derives.looser (Nat.zero_le 1)).unary .not
  · show ("!" ++ text).toList.head? ≠ _
    rw [String.toList_append]
    exact nofun

/-! ## Calls -/

/-- A call of the power function. -/
theorem Writes.power {base exponent : String} {l r : Expression} (hl : Stands .anything base l)
    (hr : Stands .anything exponent r) :
    Writes (.atom ("pow(" ++ base ++ ", " ++ exponent ++ ")")) (.call "pow".toList [l, r]) := by
  have htext : ("pow(" ++ base ++ ", " ++ exponent ++ ")").toList =
      "pow".toList ++ '(' :: (base.toList ++ ',' :: ' ' :: (exponent.toList ++ [')'])) := by
    simp [String.toList_append]
  have hname : scan "pow".toList = [.name "pow".toList] := rfl
  have hscan : scan ("pow(" ++ base ++ ", " ++ exponent ++ ")").toList =
      .name "pow".toList :: .opening :: scan base.toList ++
        [(scan exponent.toList, r)].flatMap further ++ [.closing] := by
    rw [htext, scan_append_of_breaks breaks_opening, scan_opening,
      scan_append_of_breaks breaks_comma, scan_comma, scan_space,
      scan_append_of_breaks breaks_closing, scan_closing, hname]
    simp [further]
  refine ⟨?_, ?_, Nat.zero_le 13⟩
  · show Derives 0 (scan ("pow(" ++ base ++ ", " ++ exponent ++ ")").toList) _
    rw [hscan]
    refine .call "pow".toList hl.loosest ?_
    intro a ha
    obtain rfl := List.mem_singleton.1 ha
    exact hr.loosest
  · show ("pow(" ++ base ++ ", " ++ exponent ++ ")").toList.head? ≠ _
    rw [htext]
    intro heq
    cases heq

/-- The tree of a random number between two bounds. -/
def between (low high : Expression) : Expression :=
  .binary .plus low (.binary .remainder (.call "rand".toList [])
    (.binary .plus (.binary .minus high low) (.number 1)))

/-- A random number between two bounds. -/
theorem Writes.between {low high : String} {l h : Expression} (hl : Stands .additive low l)
    (hh : Stands .additive high h) :
    Writes (.atom ("(" ++ low ++ " + rand() % (" ++ high ++ " - " ++ low ++ " + 1))"))
      (between l h) := by
  -- the span of the bounds, what is added to the lower one, and the sum, innermost first
  let span := high.toList ++ ' ' :: (Operator.sign .minus ++ ' ' ::
    (low.toList ++ ' ' :: (Operator.sign .plus ++ ' ' :: ['1'])))
  let offset := "rand()".toList ++ ' ' :: (Operator.sign .remainder ++ ' ' :: ('(' :: span ++ [')']))
  let sum := low.toList ++ ' ' :: (Operator.sign .plus ++ ' ' :: offset)
  have htext : ("(" ++ low ++ " + rand() % (" ++ high ++ " - " ++ low ++ " + 1))").toList =
      '(' :: sum ++ [')'] := by
    simp [String.toList_append, sum, offset, span, Operator.sign]
  have hspan : Derives 3 (scan span) (.binary .plus (.binary .minus h l) (.number 1)) := by
    have hminus := Derives.binary .minus (hh.derives.looser (l := 3) (by decide)) hl.derives
    have hone : Derives 2 (scan ['1']) (.number 1) := (Derives.number 1).looser (by decide)
    have hplus := Derives.binary .plus hminus hone
    rwa [List.append_assoc, List.cons_append, ← scan_between, ← scan_between] at hplus
  have hoffset : Derives 2 (scan offset) (.binary .remainder (.call "rand".toList [])
      (.binary .plus (.binary .minus h l) (.number 1))) := by
    have hrand : Derives 2 (scan "rand()".toList) (.call "rand".toList []) :=
      (Derives.callEmpty "rand".toList).looser (by decide)
    have hparens := (hspan.looser (l := 12) (by decide)).parens
    rw [← scan_parens] at hparens
    have hremainder := Derives.binary .remainder hrand (hparens.looser (Nat.zero_le 1))
    rwa [← scan_between] at hremainder
  have hsum : Derives 3 (scan sum) (Expression.between l h) := by
    have hplus := Derives.binary .plus (hl.derives.looser (l := 3) (by decide)) hoffset
    rwa [← scan_between] at hplus
  refine ⟨?_, ?_, Nat.zero_le 13⟩
  · show Derives 0 (scan ("(" ++ low ++ " + rand() % (" ++ high ++ " - " ++ low ++ " + 1))").toList) _
    rw [htext, scan_parens]
    exact (hsum.looser (by decide)).parens
  · show ("(" ++ low ++ " + rand() % (" ++ high ++ " - " ++ low ++ " + 1))").toList.head? ≠ _
    rw [htext]
    exact nofun

/-! ## Names -/

/-- The characters of an identifier: word characters, the first of them no digit. -/
structure IsName (cs : List Char) : Prop where
  word : cs.all Identifier.isWordChar = true
  leads : ∃ c rest, cs = c :: rest ∧ c.isDigit = false

theorem IsName.scan_eq {cs : List Char} (h : IsName cs) : scan cs = [.name cs] := by
  obtain ⟨c, rest, rfl, hc⟩ := h.leads
  have hword : Identifier.isWordChar c = true := List.all_eq_true.1 h.word c List.mem_cons_self
  rw [scan_word h.word, Token.ofChars, hc, hword, if_neg Bool.false_ne_true, if_pos rfl]

theorem isWordChar_wordChar (c : Char) : Identifier.isWordChar (Identifier.wordChar c) = true := by
  unfold Identifier.wordChar
  split
  · assumption
  · decide

theorem isName_guardDigit {cs : List Char} (h : cs.all Identifier.isWordChar = true)
    (hne : cs ≠ []) : IsName (Identifier.guardDigit cs) := by
  cases cs with
  | nil => exact absurd rfl hne
  | cons c cs =>
    rw [Identifier.guardDigit]
    split
    · exact ⟨by rw [List.all_cons, h]; decide, '_', c :: cs, rfl, by decide⟩
    · next hc => exact ⟨h, c, cs, rfl, Bool.eq_false_iff.2 hc⟩

theorem isName_chars (cs : List Char) : IsName (Identifier.chars cs) := by
  unfold Identifier.chars Identifier.orUnnamed
  cases htrim : Text.trim cs with
  | nil => exact isName_guardDigit (by decide) (by decide)
  | cons c rest =>
    refine isName_guardDigit ?_ (List.cons_ne_nil _ _)
    rw [List.all_eq_true]
    intro d hd
    obtain ⟨e, -, rfl⟩ := List.mem_map.1 (show d ∈ (c :: rest).map Identifier.wordChar from hd)
    exact isWordChar_wordChar e

/-- What a name is turned into is an identifier. -/
theorem isName_ofName (name : String) : IsName (Identifier.ofName name).toList := by
  have h := isName_chars name.toList
  unfold Identifier.ofName Identifier.avoidReserved
  -- a reserved word gets an underscore behind it
  split
  · rw [String.toList_append, String.toList_ofList]
    obtain ⟨c, rest, hcs, hc⟩ := h.leads
    refine ⟨?_, c, rest ++ ['_'], by rw [hcs]; rfl, hc⟩
    rw [List.all_append, h.word]
    decide
  · rwa [String.toList_ofList]

/-- An equality sign is no word character. -/
theorem IsName.head?_ne {cs : List Char} (h : IsName cs) : cs.head? ≠ some '=' := by
  intro heq
  have hword := List.all_eq_true.1 h.word '=' (List.mem_of_mem_head? heq)
  exact absurd hword (by decide)

/-- A name. -/
theorem Writes.name {text : String} (h : IsName text.toList) :
    Writes (.atom text) (.name text.toList) := by
  refine ⟨?_, h.head?_ne, Nat.zero_le 13⟩
  show Derives 0 (scan text.toList) _
  rw [h.scan_eq]
  exact .name _

/-- A call with one argument. -/
theorem Writes.answer {function argument : String} {e : Expression} (hname : IsName function.toList)
    (h : Stands .anything argument e) :
    Writes (.atom (function ++ "(" ++ argument ++ ")")) (.call function.toList [e]) := by
  have htext : (function ++ "(" ++ argument ++ ")").toList =
      function.toList ++ '(' :: (argument.toList ++ [')']) := by
    simp [String.toList_append]
  refine ⟨?_, ?_, Nat.zero_le 13⟩
  · show Derives 0 (scan (function ++ "(" ++ argument ++ ")").toList) _
    rw [htext, scan_append_of_breaks breaks_opening, scan_opening,
      scan_append_of_breaks breaks_closing, scan_closing, scan_nil, hname.scan_eq]
    have hcall := Derives.call function.toList h.loosest (List.forall_mem_nil _)
    rwa [List.flatMap_nil, List.append_nil] at hcall
  · show (function ++ "(" ++ argument ++ ")").toList.head? ≠ _
    rw [htext]
    exact head?_append_ne hname.head?_ne nofun

/-! ## Numbers -/

theorem isWordChar_of_isDigit {c : Char} (h : c.isDigit = true) :
    Identifier.isWordChar c = true := by
  rw [Identifier.isWordChar, Char.isAlphanum, h, Bool.or_true, Bool.true_or]

/-- The digits of a number have no zero in front, unless the number is zero. -/
theorem head?_toDigits {n : Nat} (h : n ≠ 0) : (Nat.toDigits 10 n).head? ≠ some '0' := by
  induction n using Nat.strongRecOn with
  | ind n ih =>
    by_cases hlt : n < 10
    · rw [Nat.toDigits_of_lt_base hlt]
      have hdigit : ∀ d < 10, d ≠ 0 → [d.digitChar].head? ≠ some '0' := by decide
      exact hdigit n hlt h
    · have hten : 10 ≤ n := Nat.not_lt.1 hlt
      have hdiv : n / 10 ≠ 0 := by omega
      rw [Nat.toDigits_of_base_le (by decide) hten]
      have hrest := ih (n / 10) (by omega) hdiv
      cases hds : Nat.toDigits 10 (n / 10) with
      | nil => exact absurd hds Nat.toDigits_ne_nil
      | cons d ds => rwa [hds] at hrest

/-- The digits of a number are one token. -/
theorem scan_toDigits (n : Nat) : scan (Nat.toDigits 10 n) = [.number n] := by
  have hdigits : ∀ c ∈ Nat.toDigits 10 n, c.isDigit = true := fun c hc =>
    Nat.isDigit_of_mem_toDigits (by decide) (by decide) hc
  have hvalue : Nat.ofDigitChars 10 (Nat.toDigits 10 n) 0 = n := Nat.ofDigitChars_ten_toDigits
  have hdecimal : Token.isDecimal (Nat.toDigits 10 n) = true := by
    rw [Token.isDecimal, List.all_eq_true.2 hdigits, Bool.true_and]
    by_cases h : n = 0
    · subst h
      rfl
    · rw [bne_iff_ne.2 (head?_toDigits h), Bool.or_true]
  cases hds : Nat.toDigits 10 n with
  | nil => exact absurd hds Nat.toDigits_ne_nil
  | cons c cs =>
    rw [hds] at hdigits hvalue hdecimal
    have hword : (c :: cs).all Identifier.isWordChar = true :=
      List.all_eq_true.2 fun d hd => isWordChar_of_isDigit (hdigits d hd)
    rw [scan_word hword, Token.ofChars, hdigits c List.mem_cons_self, if_pos rfl, hdecimal,
      if_pos rfl, hvalue]

/-- The tree of an integer: a minus sign is an operator. -/
def integer : Int → Expression
  | .ofNat n => .number n
  | .negSucc n => .unary .minus (.number (n + 1))

/-- The digits of a number start with a digit only. -/
theorem head?_toDigits_ne {c : Char} (hc : c.isDigit = false) (n : Nat) :
    (Nat.toDigits 10 n).head? ≠ some c := by
  intro h
  have hdigit := Nat.isDigit_of_mem_toDigits (by decide) (by decide) (List.mem_of_mem_head? h)
  rw [hc] at hdigit
  cases hdigit

/-- A number without a sign. -/
theorem Writes.number (n : Nat) : Writes (.atom (toString n)) (.number n) := by
  have htext : (toString n).toList = Nat.toDigits 10 n := Nat.toList_repr
  refine ⟨?_, ?_, Nat.zero_le 13⟩
  · show Derives 0 (scan (toString n).toList) _
    rw [htext, scan_toDigits]
    exact .number n
  · show (toString n).toList.head? ≠ _
    rw [htext]
    exact head?_toDigits_ne (by decide) n

/-- An integer, of which a leading minus sign is an operator. -/
theorem Writes.integer (n : Int) :
    Writes ⟨toString n, if (toString n).toList.head? == some '-' then .unaryPrefix else .atomic⟩
      (integer n) := by
  cases n with
  | ofNat n =>
    have hhead : ((toString n).toList.head? == some '-') = false := by
      rw [show (toString n).toList = Nat.toDigits 10 n from Nat.toList_repr]
      exact beq_false_of_ne (head?_toDigits_ne (by decide) n)
    show Writes ⟨toString n, if (toString n).toList.head? == some '-' then _ else _⟩ (.number n)
    rw [hhead]
    exact Writes.number n
  | negSucc n =>
    have htext : (toString (Int.negSucc n)).toList = '-' :: Nat.toDigits 10 (n + 1) := by
      show ("-" ++ Nat.repr (n + 1)).toList = _
      rw [String.toList_append, Nat.toList_repr]
      rfl
    have hscan : scan ('-' :: Nat.toDigits 10 (n + 1)) = [.operator .minus, .number (n + 1)] := by
      rw [← scan_toDigits]
      cases hds : Nat.toDigits 10 (n + 1) with
      | nil => exact absurd hds Nat.toDigits_ne_nil
      | cons c cs =>
        have hmem : c ∈ Nat.toDigits 10 (n + 1) := hds ▸ List.mem_cons_self
        exact scan_minus (Nat.isDigit_of_mem_toDigits (by decide) (by decide) hmem) cs
    rw [htext]
    refine ⟨?_, ?_, Nat.le_add_right 2 11⟩
    · show Derives 1 (scan (toString (Int.negSucc n)).toList) _
      rw [htext, hscan]
      exact ((Derives.number (n + 1)).looser (Nat.zero_le 1)).unary .minus
    · show (toString (Int.negSucc n)).toList.head? ≠ _
      rw [htext]
      exact nofun

end BlockCompiler.Expression
