import BlockCompiler.Text.Literal
import Mathlib.Data.List.Basic

set_option autoImplicit false

/-! # Integers that read back

The text of a 64-bit integer is a literal with the value of the integer. It consists of digits behind at
most one minus sign; these characters make up its *numeral*, which ends in front of any other one. -/

namespace BlockCompiler.Text

/-! ## Digits -/

theorem isDigit_iff {c : Char} : c.isDigit = true ↔ 48 ≤ c.toNat ∧ c.toNat ≤ 57 := by
  simp only [Char.isDigit, Bool.and_eq_true, decide_eq_true_eq, ge_iff_le, UInt32.le_iff_toNat_le]
  rfl

theorem digit?_of_isDigit {c : Char} (h : c.isDigit = true) :
    digit? 10 c = some (c.toNat - '0'.toNat) := by
  have hrange := isDigit_iff.1 h
  have hdigit : (decide ('0' ≤ c) && decide (c ≤ '9')) = true :=
    Bool.and_eq_true_iff.2 ⟨decide_eq_true hrange.1, decide_eq_true hrange.2⟩
  have hvalue : decide (c.toNat - 48 < 10) = true := decide_eq_true (by omega)
  rw [digit?, hdigit, if_pos rfl]
  exact (Option.filter_some ..).trans (if_pos hvalue)

theorem digitsFrom?_of_isDigit {cs : List Char} (h : ∀ c ∈ cs, c.isDigit = true) (value : Nat) :
    digitsFrom? 10 value cs = some (Nat.ofDigitChars 10 cs value) := by
  induction cs generalizing value with
  | nil => rfl
  | cons c cs ih =>
    have hc := digit?_of_isDigit (h c List.mem_cons_self)
    rw [digitsFrom?, hc, Nat.ofDigitChars_cons, Nat.mul_comm 10 value]
    exact ih (fun d hd => h d (List.mem_cons_of_mem c hd)) _

theorem isDigit_of_mem_toDigits {n : Nat} {c : Char} (h : c ∈ Nat.toDigits 10 n) :
    c.isDigit = true :=
  Nat.isDigit_of_mem_toDigits (by decide) (by decide) h

theorem digits?_toDigits (n : Nat) : digits? 10 (Nat.toDigits 10 n) = some n := by
  rw [digits?, if_neg (by simp [Nat.toDigits_ne_nil]),
    digitsFrom?_of_isDigit fun c => isDigit_of_mem_toDigits, Nat.ofDigitChars_ten_toDigits]

theorem unsigned?_toDigits {n limit : Nat} (h : n ≤ limit) :
    unsigned? limit (Nat.toDigits 10 n) = some n := by
  have hdigits : (digits? 10 (Nat.toDigits 10 n)).filter (· ≤ limit) = some n := by
    rw [digits?_toDigits, Option.filter_some, if_pos (decide_eq_true h)]
  unfold unsigned?
  split
  · next heq => exact absurd (isDigit_of_mem_toDigits (heq ▸ List.mem_cons_self)) (by decide)
  · exact hdigits

/-! ## Numerals -/

/-- A character of a decimal integer. -/
def isNumeral (c : Char) : Bool := c.isDigit || c == '-'

/-- The characters of an integer: its digits, behind a minus sign if it is negative. -/
def integerChars : Int → List Char
  | .ofNat n => Nat.toDigits 10 n
  | .negSucc n => '-' :: Nat.toDigits 10 (n + 1)

theorem toList_toString (n : Int) : (toString n).toList = integerChars n := by
  cases n with
  | ofNat n => exact Nat.toList_repr
  | negSucc n =>
    show ("-" ++ Nat.repr (n + 1)).toList = _
    rw [String.toList_append, Nat.toList_repr]
    rfl

theorem isNumeral_of_mem_toString {n : Int} {c : Char} (h : c ∈ (toString n).toList) :
    isNumeral c = true := by
  rw [toList_toString] at h
  cases n with
  | ofNat n => rw [isNumeral, isDigit_of_mem_toDigits h, Bool.true_or]
  | negSucc n =>
    rcases List.mem_cons.1 h with rfl | h
    · rfl
    · rw [isNumeral, isDigit_of_mem_toDigits h, Bool.true_or]

theorem toDigits_injective {n m : Nat} (h : Nat.toDigits 10 n = Nat.toDigits 10 m) : n = m := by
  rw [← @Nat.ofDigitChars_ten_toDigits n, h, Nat.ofDigitChars_ten_toDigits]

/-- Numbered names of one stem are told apart by their numbers. -/
theorem append_toString_injective {stem : String} {n m : Nat}
    (h : stem ++ toString n = stem ++ toString m) : n = m := by
  have hdigits := congrArg String.toList ((String.append_right_inj stem).1 h)
  rw [Nat.toString_eq_repr, Nat.toString_eq_repr, Nat.toList_repr, Nat.toList_repr] at hdigits
  exact toDigits_injective hdigits

theorem toDigits_ne_minus (n : Nat) (cs : List Char) : Nat.toDigits 10 n ≠ '-' :: cs := fun h =>
  absurd (isDigit_of_mem_toDigits (h ▸ List.mem_cons_self)) (by decide)

theorem toString_inj {n m : Int} (h : (toString n).toList = (toString m).toList) : n = m := by
  rw [toList_toString, toList_toString] at h
  cases n with
  | ofNat n =>
    cases m with
    | ofNat m => exact congrArg Int.ofNat (toDigits_injective h)
    | negSucc m => exact absurd h (toDigits_ne_minus n _)
  | negSucc n =>
    cases m with
    | ofNat m => exact absurd h.symm (toDigits_ne_minus m _)
    | negSucc m =>
      have hsucc := toDigits_injective (List.cons.inj h).2
      rw [Nat.succ.inj hsucc]

/-- Two texts whose front is a numeral, up to one and the same other character, have the same front. -/
theorem eq_of_numerals {test : Char → Bool} {front front' rest rest' : List Char} {c : Char}
    (hfront : ∀ d ∈ front, test d = true) (hfront' : ∀ d ∈ front', test d = true)
    (hc : test c = false) (h : front ++ c :: rest = front' ++ c :: rest') : front = front' := by
  have htake := congrArg (List.takeWhile test) h
  rwa [List.takeWhile_append_of_pos hfront, List.takeWhile_append_of_pos hfront',
    List.takeWhile_cons_of_neg (by simp [hc]), List.takeWhile_cons_of_neg (by simp [hc]),
    List.append_nil, List.append_nil] at htake

/-- The same at the other end: what stands behind the other character. -/
theorem eq_of_numerals_behind {test : Char → Bool} {front front' rest rest' : List Char} {c : Char}
    (hrest : ∀ d ∈ rest, test d = true) (hrest' : ∀ d ∈ rest', test d = true)
    (hc : test c = false) (h : front ++ c :: rest = front' ++ c :: rest') : rest = rest' := by
  have hreverse := congrArg List.reverse h
  simp only [List.reverse_append, List.reverse_cons, List.append_assoc, List.singleton_append]
    at hreverse
  refine List.reverse_inj.1 (eq_of_numerals ?_ ?_ hc hreverse)
  · exact fun d hd => hrest d (List.mem_reverse.1 hd)
  · exact fun d hd => hrest' d (List.mem_reverse.1 hd)

/-! ## Literals -/

theorem not_isBlank_of_isNumeral {c : Char} (h : isNumeral c = true) : isBlank c = false := by
  rw [isNumeral, Bool.or_eq_true, beq_iff_eq] at h
  rcases h with h | rfl
  · have hrange := isDigit_iff.1 h
    simp only [isBlank, Bool.or_eq_false_iff, Bool.and_eq_false_imp, decide_eq_true_eq,
      decide_eq_false_iff_not, beq_eq_false_iff_ne]
    omega
  · rfl

theorem trim_of_isNumeral {cs : List Char} (h : ∀ c ∈ cs, isNumeral c = true) : trim cs = cs :=
  trim_eq_self fun c hc => not_isBlank_of_isNumeral (h c hc)

/-- A numeral stands in no parentheses. -/
theorem peel_of_isNumeral {cs : List Char} (h : ∀ c ∈ cs, isNumeral c = true) (fuel : Nat) :
    peel fuel cs = cs := by
  cases fuel with
  | zero => exact trim_of_isNumeral h
  | succ fuel =>
    rw [peel, trim_of_isNumeral h]
    split
    · exact absurd (h _ List.mem_cons_self) (by decide)
    · rfl

/-- The text of an integer reads as this integer, if it has 64 bits. -/
theorem signed?_integerChars (n : Int) : signed? 10 (integerChars n) =
    (some n).filter fun n => decide (least ≤ n) && decide (n ≤ greatest) := by
  have hsign : ∀ m : Nat, splitSign (Nat.toDigits 10 m) = (false, Nat.toDigits 10 m) := by
    intro m
    unfold splitSign
    split
    · next heq => exact absurd (isDigit_of_mem_toDigits (heq ▸ List.mem_cons_self)) (by decide)
    · next heq => exact absurd (isDigit_of_mem_toDigits (heq ▸ List.mem_cons_self)) (by decide)
    · rfl
  cases n with
  | ofNat m =>
    rw [integerChars, signed?, hsign]
    simp only [digits?_toDigits, Option.map_some]
    rfl
  | negSucc m =>
    rw [integerChars, signed?, splitSign]
    simp only [digits?_toDigits, Option.map_some]
    rfl

theorem intLiteral?_toString_eq (n : Int) : intLiteral? (toString n) =
    (some n).filter fun n => decide (least ≤ n) && decide (n ≤ greatest) := by
  rw [intLiteral?, peel_of_isNumeral fun c => isNumeral_of_mem_toString, toList_toString,
    signed?_integerChars]

/-- The text of an integer of 64 bits is a literal of its value. -/
theorem intLiteral?_toString {n : Int} (hleast : least ≤ n) (hgreatest : n ≤ greatest) :
    intLiteral? (toString n) = some n := by
  have hrange : (decide (least ≤ n) && decide (n ≤ greatest)) = true := by
    rw [decide_eq_true hleast, decide_eq_true hgreatest]
    rfl
  rw [intLiteral?_toString_eq]
  exact (Option.filter_some ..).trans (if_pos hrange)

/-- The text of an integer is no literal of another value. -/
theorem intLiteral?_toString_of_isSome {n : Int} (h : (intLiteral? (toString n)).isSome = true) :
    intLiteral? (toString n) = some n := by
  obtain ⟨m, hm⟩ := Option.isSome_iff_exists.1 h
  have hfilter := hm
  rw [intLiteral?_toString_eq] at hfilter
  rw [hm, (Option.filter_eq_some_iff.1 hfilter).1]

/-- What is read has 64 bits. -/
theorem range_of_signed? {base : Nat} {cs : List Char} {n : Int} (h : signed? base cs = some n) :
    least ≤ n ∧ n ≤ greatest := by
  have htest := (Option.filter_eq_some_iff.1 h).2
  simpa using htest

/-! ## Clamping -/

theorem clamp_mem {low high : Int} (h : low ≤ high) (n : Int) :
    low ≤ clamp n low high ∧ clamp n low high ≤ high := by
  unfold clamp
  omega

end BlockCompiler.Text
