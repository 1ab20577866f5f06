import BlockCompiler.Identifier

set_option autoImplicit false

/-! # Tokens of C expressions

How a C compiler cuts the text of an expression into words and punctuators: each token is as long
as it can be. The cut is what makes two texts that stand side by side one token or two, so the
lemmas say where a text falls apart: at every blank, around the marks that are no part of a longer
punctuator, and behind an operator that a blank follows. Texts with anything else in them, such as
comments or characters in quotes, are cut into stray tokens, which no expression has. -/

namespace BlockCompiler.Expression

/-! ## Tokens -/

/-- The operators between two operands. -/
inductive Operator where
  | times
  | divide
  | remainder
  | plus
  | minus
  | shiftLeft
  | shiftRight
  | less
  | lessEqual
  | greater
  | greaterEqual
  | equal
  | unequal
  | bitAnd
  | bitXor
  | bitOr
  | and
  | or
  deriving Repr, DecidableEq

/-- A word or a punctuator of an expression. -/
inductive Token where
  | number (n : Nat)
  | name (text : List Char)
  | operator (o : Operator)
  | not
  | question
  | colon
  | comma
  | opening
  | closing
  /-- Anything that is no part of an expression. -/
  | stray (text : List Char)
  deriving Repr, DecidableEq

/-- How an operator is written. -/
def Operator.sign : Operator → List Char
  | .times => ['*']
  | .divide => ['/']
  | .remainder => ['%']
  | .plus => ['+']
  | .minus => ['-']
  | .shiftLeft => ['<', '<']
  | .shiftRight => ['>', '>']
  | .less => ['<']
  | .lessEqual => ['<', '=']
  | .greater => ['>']
  | .greaterEqual => ['>', '=']
  | .equal => ['=', '=']
  | .unequal => ['!', '=']
  | .bitAnd => ['&']
  | .bitXor => ['^']
  | .bitOr => ['|']
  | .and => ['&', '&']
  | .or => ['|', '|']

namespace Token

/-- The token of a punctuator. -/
def ofMark : List Char → Token
  | ['*'] => .operator .times
  | ['/'] => .operator .divide
  | ['%'] => .operator .remainder
  | ['+'] => .operator .plus
  | ['-'] => .operator .minus
  | ['<', '<'] => .operator .shiftLeft
  | ['>', '>'] => .operator .shiftRight
  | ['<'] => .operator .less
  | ['<', '='] => .operator .lessEqual
  | ['>'] => .operator .greater
  | ['>', '='] => .operator .greaterEqual
  | ['=', '='] => .operator .equal
  | ['!', '='] => .operator .unequal
  | ['&'] => .operator .bitAnd
  | ['^'] => .operator .bitXor
  | ['|'] => .operator .bitOr
  | ['&', '&'] => .operator .and
  | ['|', '|'] => .operator .or
  | ['!'] => .not
  | ['?'] => .question
  | [':'] => .colon
  | [','] => .comma
  | ['('] => .opening
  | [')'] => .closing
  | cs => .stray cs

/-- Whether digits are a decimal number: with a zero in front they are an octal one. -/
def isDecimal (cs : List Char) : Bool := cs.all Char.isDigit && (cs == ['0'] || cs.head? != some '0')

/-- The token of characters that stand together. -/
def ofChars : List Char → Token
  | [] => .stray []
  | c :: cs =>
    if c.isDigit then
      if isDecimal (c :: cs) then .number (Nat.ofDigitChars 10 (c :: cs) 0) else .stray (c :: cs)
    else if Identifier.isWordChar c then .name (c :: cs)
    else ofMark (c :: cs)

end Token

/-! ## Cutting a text -/

/-- The punctuators of more than one character, and the marks of comments. -/
def longMarks : List (List Char) := [
  ['<', '<'], ['>', '>'], ['<', '='], ['>', '='], ['=', '='], ['!', '='], ['&', '&'], ['|', '|'],
  ['+', '+'], ['-', '-'], ['-', '>'], ['+', '='], ['-', '='], ['*', '='], ['/', '='], ['%', '='],
  ['&', '='], ['^', '='], ['|', '='], ['<', '<', '='], ['>', '>', '='], ['/', '/'], ['/', '*']]

/-- Whether a character belongs to the token that the characters in front of it begin. -/
def joins (held : List Char) (c : Char) : Bool :=
  match held with
  | [] => false
  | h :: _ =>
    if Identifier.isWordChar h then Identifier.isWordChar c else longMarks.contains (held ++ [c])

/-- The token of the characters held, if there are any. -/
def flush (held : List Char) : List Token := if held.isEmpty then [] else [Token.ofChars held]

/-- What is held behind a character that begins anew: blanks are dropped. -/
def hold (c : Char) : List Char := if Text.isBlank c then [] else [c]

/-- The tokens of a text behind the characters held. -/
def scanFrom (held : List Char) : List Char → List Token
  | [] => flush held
  | c :: cs =>
    if joins held c then scanFrom (held ++ [c]) cs else flush held ++ scanFrom (hold c) cs

/-- The tokens of a text. -/
def scan (cs : List Char) : List Token := scanFrom [] cs

@[simp] theorem scan_nil : scan [] = [] := rfl

theorem scan_cons (c : Char) (cs : List Char) : scan (c :: cs) = scanFrom (hold c) cs := rfl

/-! ## Where a text falls apart -/

/-- A character that does not belong to the token in front of it begins anew. -/
theorem scanFrom_cons_of_not_joins {held : List Char} {c : Char} (h : joins held c = false)
    (cs : List Char) : scanFrom held (c :: cs) = flush held ++ scan (c :: cs) := by
  rw [scanFrom, h, if_neg Bool.false_ne_true, scan_cons]

theorem joins_word {h : Char} (hh : Identifier.isWordChar h = true) (held : List Char) (c : Char) :
    joins (h :: held) c = Identifier.isWordChar c := by
  rw [joins, if_pos hh]

theorem joins_mark {h : Char} (hh : Identifier.isWordChar h = false) (held : List Char) (c : Char) :
    joins (h :: held) c = longMarks.contains (h :: held ++ [c]) := by
  rw [joins, if_neg (by rw [hh]; exact Bool.false_ne_true)]

/-- A character that is never part of the token in front of it. -/
def Breaks (c : Char) : Prop := ∀ held, joins held c = false

/-- A character that ends no punctuator but its own, and is no part of a word, breaks. -/
theorem breaks_of_forall_longMarks {c : Char} (hword : Identifier.isWordChar c = false)
    (hmark : ∀ mark ∈ longMarks, mark.getLast? ≠ some c) : Breaks c := by
  intro held
  cases held with
  | nil => rfl
  | cons h hs =>
    cases hh : Identifier.isWordChar h with
    | true => rw [joins_word hh, hword]
    | false =>
      -- a mark joins `c` only if the two end a long punctuator, and none ends with `c`
      rw [joins_mark hh]
      rw [Bool.eq_false_iff]
      intro hc
      exact hmark _ (List.contains_iff_mem.1 hc) List.getLast?_concat

theorem breaks_space : Breaks ' ' := breaks_of_forall_longMarks (by decide) (by decide)

theorem breaks_opening : Breaks '(' := breaks_of_forall_longMarks (by decide) (by decide)

theorem breaks_closing : Breaks ')' := breaks_of_forall_longMarks (by decide) (by decide)

theorem breaks_comma : Breaks ',' := breaks_of_forall_longMarks (by decide) (by decide)

/-- In front of a character that breaks, a text is cut as if it ended there. -/
theorem scanFrom_append_of_breaks {c : Char} (hc : Breaks c) (held xs ys : List Char) :
    scanFrom held (xs ++ c :: ys) = scanFrom held xs ++ scan (c :: ys) := by
  -- whatever is held when the front is through, `c` does not belong to it
  induction xs generalizing held with
  | nil => exact scanFrom_cons_of_not_joins (hc held) ys
  | cons x xs ih =>
    simp only [List.cons_append, scanFrom]
    split
    · exact ih _
    · rw [ih, List.append_assoc]

theorem scan_append_of_breaks {c : Char} (hc : Breaks c) (xs ys : List Char) :
    scan (xs ++ c :: ys) = scan xs ++ scan (c :: ys) :=
  scanFrom_append_of_breaks hc [] xs ys

/-- A blank is dropped. -/
@[simp] theorem scan_space (cs : List Char) : scan (' ' :: cs) = scan cs := rfl

/-- A mark that begins no longer punctuator is a token of its own. -/
theorem scan_cons_of_alone {c : Char} (hc : ∀ d, joins [c] d = false)
    (hblank : Text.isBlank c = false) (cs : List Char) :
    scan (c :: cs) = Token.ofChars [c] :: scan cs := by
  rw [scan_cons, hold, hblank, if_neg Bool.false_ne_true]
  cases cs with
  | nil => rfl
  | cons d ds => exact scanFrom_cons_of_not_joins (hc d) ds

/-- A mark that no punctuator of more than one character begins with joins nothing. -/
theorem not_joins_of_forall_longMarks {c : Char} (hword : Identifier.isWordChar c = false)
    (hmark : ∀ mark ∈ longMarks, mark.head? ≠ some c) (d : Char) : joins [c] d = false := by
  rw [joins_mark hword]
  rw [Bool.eq_false_iff]
  intro hc
  exact hmark _ (List.contains_iff_mem.1 hc) rfl

@[simp] theorem scan_opening (cs : List Char) : scan ('(' :: cs) = .opening :: scan cs :=
  scan_cons_of_alone (not_joins_of_forall_longMarks (by decide) (by decide)) (by decide) cs

@[simp] theorem scan_closing (cs : List Char) : scan (')' :: cs) = .closing :: scan cs :=
  scan_cons_of_alone (not_joins_of_forall_longMarks (by decide) (by decide)) (by decide) cs

@[simp] theorem scan_comma (cs : List Char) : scan (',' :: cs) = .comma :: scan cs :=
  scan_cons_of_alone (not_joins_of_forall_longMarks (by decide) (by decide)) (by decide) cs

@[simp] theorem scan_question (cs : List Char) : scan ('?' :: cs) = .question :: scan cs :=
  scan_cons_of_alone (not_joins_of_forall_longMarks (by decide) (by decide)) (by decide) cs

@[simp] theorem scan_colon (cs : List Char) : scan (':' :: cs) = .colon :: scan cs :=
  scan_cons_of_alone (not_joins_of_forall_longMarks (by decide) (by decide)) (by decide) cs

/-- A text in parentheses. -/
theorem scan_parens (cs : List Char) :
    scan ('(' :: cs ++ [')']) = .opening :: scan cs ++ [.closing] := by
  rw [List.cons_append, scan_opening, scan_append_of_breaks breaks_closing, scan_closing, scan_nil,
    List.cons_append]

/-- An operator between blanks. -/
theorem scan_between (xs : List Char) (o : Operator) (ys : List Char) :
    scan (xs ++ ' ' :: (o.sign ++ ' ' :: ys)) = scan xs ++ .operator o :: scan ys := by
  rw [scan_append_of_breaks breaks_space, scan_space]
  cases o <;> rfl

/-- A mark that is no longer punctuator with what follows it is a token of its own. -/
theorem scan_mark {m c : Char} (hword : Identifier.isWordChar m = false)
    (hblank : Text.isBlank m = false) (h : [m, c] ∉ longMarks) (cs : List Char) :
    scan (m :: c :: cs) = Token.ofChars [m] :: scan (c :: cs) := by
  have hjoins : joins [m] c = false := by
    rw [joins_mark hword]
    exact Bool.eq_false_iff.2 fun hj => h (List.contains_iff_mem.1 hj)
  rw [scan_cons, hold, hblank, if_neg Bool.false_ne_true]
  exact scanFrom_cons_of_not_joins hjoins cs

/-- The sign of a negation, unless it becomes part of the sign of inequality. -/
theorem scan_not {cs : List Char} (h : cs.head? ≠ some '=') : scan ('!' :: cs) = .not :: scan cs := by
  cases cs with
  | nil => rfl
  | cons c cs =>
    have hc : c ≠ '=' := fun hc => h (congrArg some hc)
    exact scan_mark (by decide) (by decide) (by simp [longMarks, hc]) cs

/-- The sign of a negative number. -/
theorem scan_minus {c : Char} (h : c.isDigit = true) (cs : List Char) :
    scan ('-' :: c :: cs) = .operator .minus :: scan (c :: cs) := by
  refine scan_mark (by decide) (by decide) (fun hmem => ?_) cs
  -- a sign and a digit begin no longer punctuator
  have hmark : ∀ mark ∈ longMarks, mark.head? = some '-' → mark.tail.any Char.isDigit = false := by
    decide
  have hdigit := hmark _ hmem rfl
  rw [List.tail_cons, List.any_cons, h, Bool.true_or] at hdigit
  cases hdigit

/-! ## Words -/

/-- Word characters are held on to. -/
theorem scanFrom_word {h : Char} (hh : Identifier.isWordChar h = true) (held cs : List Char)
    (hcs : cs.all Identifier.isWordChar = true) :
    scanFrom (h :: held) cs = [Token.ofChars (h :: held ++ cs)] := by
  induction cs generalizing held with
  | nil => simp [scanFrom, flush]
  | cons c cs ih =>
    rw [List.all_cons, Bool.and_eq_true] at hcs
    have hjoins : joins (h :: held) c = true := by rw [joins_word hh, hcs.1]
    rw [scanFrom, if_pos hjoins, List.cons_append, ih (held ++ [c]) hcs.2]
    simp

theorem not_isBlank_of_isWordChar {c : Char} (h : Identifier.isWordChar c = true) :
    Text.isBlank c = false := by
  -- the codes of word characters lie in four ranges, and no blank is in them
  have hrange : (48 ≤ c.toNat ∧ c.toNat ≤ 57) ∨ (65 ≤ c.toNat ∧ c.toNat ≤ 90) ∨ c.toNat = 95 ∨
      (97 ≤ c.toNat ∧ c.toNat ≤ 122) := by
    rw [Identifier.isWordChar, Char.isAlphanum] at h
    delta Char.isAlpha Char.isUpper Char.isLower at h
    simp only [Char.isDigit, Bool.or_eq_true, Bool.and_eq_true, decide_eq_true_eq,
      UInt32.le_iff_toNat_le, ge_iff_le] at h
    have hval : c.val.toNat = c.toNat := rfl
    rcases h with h | rfl
    · simp at h
      omega
    · decide
  simp only [Text.isBlank, Bool.or_eq_false_iff, Bool.and_eq_false_imp, decide_eq_true_eq,
    decide_eq_false_iff_not, beq_eq_false_iff_ne]
  omega

/-- A word is one token. -/
theorem scan_word {c : Char} {cs : List Char} (h : (c :: cs).all Identifier.isWordChar = true) :
    scan (c :: cs) = [Token.ofChars (c :: cs)] := by
  rw [List.all_cons, Bool.and_eq_true] at h
  rw [scan_cons, hold, not_isBlank_of_isWordChar h.1, if_neg Bool.false_ne_true,
    scanFrom_word h.1 [] cs h.2, List.cons_append, List.nil_append]

end BlockCompiler.Expression
