import BlockCompiler.Emit.Operator
import BlockCompiler.Proofs.Text.Literal

set_option autoImplicit false

/-! # Numbers that are written out

The text of a machine number has digits, and where it has a point there are digits on both sides of it.
So there are such digits in every floating-point constant, which gets a point where there is none. -/

namespace BlockCompiler

namespace Text

/-- One digit or more and nothing else. -/
structure IsDigits (cs : List Char) : Prop where
  ne_nil : cs ≠ []
  isDigit : ∀ c ∈ cs, c.isDigit = true

/-- Digits on both sides of a point. -/
def IsFloating (cs : List Char) : Prop :=
  ∃ whole fraction, IsDigits whole ∧ IsDigits fraction ∧ cs = whole ++ '.' :: fraction

/-- A minus sign or none. -/
def IsSign (cs : List Char) : Prop := cs = [] ∨ cs = ['-']

theorem isDigits_toDigits (n : Nat) : IsDigits (Nat.toDigits 10 n) :=
  ⟨Nat.toDigits_ne_nil, fun _ => isDigit_of_mem_toDigits⟩

theorem isDigits_zero : IsDigits ['0'] := isDigits_toDigits 0

theorem isDigit_of_mem_zeros {n : Nat} {c : Char} (h : c ∈ List.replicate n '0') :
    c.isDigit = true := by
  rw [List.eq_of_mem_replicate h]
  rfl

theorem IsDigits.append_zeros {cs : List Char} (h : IsDigits cs) (n : Nat) :
    IsDigits (cs ++ List.replicate n '0') where
  ne_nil := List.append_ne_nil_of_left_ne_nil h.ne_nil _
  isDigit c hc := (List.mem_append.1 hc).elim (h.isDigit c) isDigit_of_mem_zeros

theorem IsDigits.zeros_append {cs : List Char} (h : IsDigits cs) (n : Nat) :
    IsDigits (List.replicate n '0' ++ cs) where
  ne_nil := List.append_ne_nil_of_right_ne_nil _ h.ne_nil
  isDigit c hc := (List.mem_append.1 hc).elim isDigit_of_mem_zeros (h.isDigit c)

theorem IsDigits.not_mem {cs : List Char} (h : IsDigits cs) {c : Char} (hc : c.isDigit = false) :
    c ∉ cs := fun hmem => Bool.false_ne_true (hc.symm.trans (h.isDigit c hmem))

theorem IsFloating.point_mem {cs : List Char} (h : IsFloating cs) : '.' ∈ cs := by
  obtain ⟨whole, fraction, -, -, rfl⟩ := h
  exact List.mem_append_right _ List.mem_cons_self

theorem IsFloating.isDigit_of_mem {cs : List Char} (h : IsFloating cs) {c : Char} (hc : c ∈ cs) :
    c.isDigit = true ∨ c = '.' := by
  obtain ⟨whole, fraction, hwhole, hfraction, rfl⟩ := h
  rcases List.mem_append.1 hc with hc | hc
  · exact .inl (hwhole.isDigit c hc)
  rcases List.mem_cons.1 hc with rfl | hc
  · exact .inr rfl
  · exact .inl (hfraction.isDigit c hc)

theorem IsSign.not_mem_point {cs : List Char} (h : IsSign cs) : '.' ∉ cs := by
  rcases h with rfl | rfl <;> decide

theorem IsSign.isNumeral_of_mem {cs : List Char} (h : IsSign cs) {c : Char} (hc : c ∈ cs) :
    isNumeral c = true := by
  rcases h with rfl | rfl
  · cases hc
  · rw [List.mem_singleton.1 hc]
    rfl

theorem IsFloating.isNumeral_of_mem {sign cs : List Char} (h : IsFloating cs) (hsign : IsSign sign)
    {c : Char} (hc : c ∈ sign ++ cs) : isNumeral c = true ∨ c = '.' := by
  rcases List.mem_append.1 hc with hc | hc
  · exact .inl (hsign.isNumeral_of_mem hc)
  · refine (h.isDigit_of_mem hc).imp_left fun hdigit => ?_
    rw [isNumeral, hdigit, Bool.true_or]

end Text

open Text

namespace Decimal

theorem isDigits_or_isFloating_positional (digits : Nat) (exponent : Int) :
    IsDigits (positional digits exponent) ∨ IsFloating (positional digits exponent) := by
  have hdigits := isDigits_toDigits digits
  unfold positional
  dsimp only
  split
  · exact .inl (hdigits.append_zeros _)
  · next hnegative =>
    have hplaces : 0 < (-exponent).toNat := by omega
    refine .inr ?_
    split
    · exact ⟨['0'], _, isDigits_zero, hdigits.zeros_append _, rfl⟩
    · next hlength =>
      -- the point has digits in front of it, and behind it as many as there are places
      refine ⟨_, _, ⟨?_, fun c hc => hdigits.isDigit c (List.mem_of_mem_take hc)⟩,
        ⟨?_, fun c hc => hdigits.isDigit c (List.mem_of_mem_drop hc)⟩, rfl⟩
      · refine List.ne_nil_of_length_pos ?_
        rw [List.length_take]
        omega
      · refine List.ne_nil_of_length_pos ?_
        rw [List.length_drop]
        omega

/-- The text of a machine number is one of digits behind a sign. -/
theorem toList_shortestText (negative : Bool) (mantissa : Nat) (exponent : Int) :
    ∃ sign cs, IsSign sign ∧ (IsDigits cs ∨ IsFloating cs) ∧
      (shortestText negative mantissa exponent).toList = sign ++ cs := by
  unfold shortestText
  rw [String.toList_ofList]
  generalize hbody : (if mantissa = 0 then ['0'] else
    positional (Cell.ofFinite mantissa exponent).shortest.1
      (Cell.ofFinite mantissa exponent).shortest.2) = body
  have hwritten : IsDigits body ∨ IsFloating body := by
    rw [← hbody]
    split
    · exact .inl isDigits_zero
    · exact isDigits_or_isFloating_positional _ _
  cases negative with
  | false => exact ⟨[], body, .inl rfl, hwritten, rfl⟩
  | true => exact ⟨['-'], body, .inr rfl, hwritten, rfl⟩

end Decimal

namespace Emit

/-- A floating-point constant has a point between digits, or it is zero. -/
theorem floatLiteral_cases (x : Decimal.Binary64) : floatLiteral x = "0" ∨
    ∃ sign cs, IsSign sign ∧ IsFloating cs ∧ (floatLiteral x).toList = sign ++ cs := by
  cases x with
  | infinite negative => exact .inl rfl
  | undefined => exact .inl rfl
  | finite negative mantissa exponent =>
    refine .inr ?_
    obtain ⟨sign, cs, hsign, hcs, htext⟩ :=
      Decimal.toList_shortestText negative mantissa exponent
    rw [floatLiteral, withPoint, htext]
    rcases hcs with hdigits | hfloating
    · have hpoint : '.' ∉ sign ++ cs := by
        rw [List.mem_append, not_or]
        exact ⟨hsign.not_mem_point, hdigits.not_mem (by decide)⟩
      rw [if_neg (by simpa using hpoint), String.toList_append, htext, List.append_assoc]
      exact ⟨sign, _, hsign, ⟨cs, ['0'], hdigits, isDigits_zero, rfl⟩, rfl⟩
    · have hpoint : '.' ∈ sign ++ cs := List.mem_append_right _ hfloating.point_mem
      rw [if_pos (by simpa using hpoint)]
      exact ⟨sign, cs, hsign, hfloating, htext⟩

theorem floatLiteral_chars (x : Decimal.Binary64) : floatLiteral x = "0" ∨
    ('.' ∈ (floatLiteral x).toList ∧
      ∀ c ∈ (floatLiteral x).toList, isNumeral c = true ∨ c = '.') := by
  refine (floatLiteral_cases x).imp_right ?_
  rintro ⟨sign, cs, hsign, hcs, htext⟩
  rw [htext]
  exact ⟨List.mem_append_right _ hcs.point_mem, fun c => hcs.isNumeral_of_mem hsign⟩

end Emit

end BlockCompiler
