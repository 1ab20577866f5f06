import BlockCompiler.Proofs.Emission.Nesting
import BlockCompiler.Proofs.Emit.Subscript
import BlockCompiler.Proofs.Text.Balanced

set_option autoImplicit false

/-! # Clamped numbers

A value socket with a range clamps a number that is written out. It does so if the text that the number
block yields is read as a literal, and what is read is a decimal one. Number blocks yield hexadecimal
constants too, as they were written; these pass for something that is only known when the program runs,
and keep a value outside of the range. -/

namespace BlockCompiler

/-! ## Constants -/

namespace Text

/-- How an integer constant of C is written. -/
inductive Radix where
  | decimal
  | hexadecimal
  deriving Repr, DecidableEq

/-- Characters are a constant of C for an integer: digits of which the first of several is no zero, or
hexadecimal digits behind their mark, and in front of either there may be a minus. -/
inductive Spells : Radix → List Char → Int → Prop
  | decimal {cs : List Char} {n : Nat} :
    digits? 10 cs = some n → cs = ['0'] ∨ cs.head? ≠ some '0' → Spells .decimal cs n
  | hexadecimal {mark : Char} {cs : List Char} {n : Nat} :
    mark = 'x' ∨ mark = 'X' → digits? 16 cs = some n → Spells .hexadecimal ('0' :: mark :: cs) n
  | minus {radix : Radix} {cs : List Char} {n : Int} :
    cs.head? ≠ some '-' → Spells radix cs n → Spells radix ('-' :: cs) (-n)

theorem digitsFrom?_of_not_digit {base : Nat} {cs : List Char} {c : Char} (hc : c ∈ cs)
    (hdigit : digit? base c = none) (value : Nat) : digitsFrom? base value cs = none := by
  induction cs generalizing value with
  | nil => cases hc
  | cons d cs ih =>
    unfold digitsFrom?
    rcases List.mem_cons.1 hc with rfl | hc
    · rw [hdigit]
      rfl
    · cases digit? base d with
      | none => rfl
      | some digit => exact ih hc _

theorem digits?_of_not_digit {base : Nat} {cs : List Char} {c : Char} (hc : c ∈ cs)
    (hdigit : digit? base c = none) : digits? base cs = none := by
  unfold digits?
  split
  · rfl
  · exact digitsFrom?_of_not_digit hc hdigit 0

theorem signed?_of_not_digit {base : Nat} {cs : List Char} {c : Char} (hc : c ∈ cs)
    (hdigit : digit? base c = none) (hsign : c ∉ ['-', '+']) : signed? base cs = none := by
  have hmem : c ∈ (splitSign cs).2 := by
    simp only [List.mem_cons, List.not_mem_nil, or_false, not_or] at hsign
    unfold splitSign
    split
    · exact (List.mem_cons.1 hc).resolve_left hsign.1
    · exact (List.mem_cons.1 hc).resolve_left hsign.2
    · exact hc
  unfold signed?
  simp only [digits?_of_not_digit hmem hdigit]
  rfl

theorem not_mem_of_digits? {base n : Nat} {cs : List Char} (h : digits? base cs = some n) {c : Char}
    (hdigit : digit? base c = none) : c ∉ cs := by
  intro hc
  rw [digits?_of_not_digit hc hdigit] at h
  cases h

/-- A constant has no point. -/
theorem Spells.not_mem_point {radix : Radix} {cs : List Char} {n : Int} (h : Spells radix cs n) :
    '.' ∉ cs := by
  induction h with
  | decimal hread _ => exact not_mem_of_digits? hread rfl
  | @hexadecimal _ cs _ hmark hread =>
    have hcs : '.' ∉ cs := not_mem_of_digits? hread rfl
    rcases hmark with rfl | rfl <;> simp [hcs]
  | minus _ _ ih => simp [ih]

theorem digits?_ten_mark {mark : Char} (hmark : mark = 'x' ∨ mark = 'X') (cs : List Char) :
    digits? 10 ('0' :: mark :: cs) = none := by
  refine digits?_of_not_digit (List.mem_cons_of_mem _ List.mem_cons_self) ?_
  rcases hmark with rfl | rfl <;> rfl

/-- A constant that starts like a hexadecimal one is one. -/
theorem Spells.of_mark {radix : Radix} {mark : Char} {cs : List Char} {n : Int}
    (h : Spells radix ('0' :: mark :: cs) n) (hmark : mark = 'x' ∨ mark = 'X') :
    radix = .hexadecimal := by
  cases h with
  | decimal hread => rw [digits?_ten_mark hmark] at hread; cases hread
  | hexadecimal => rfl

/-- The digits of a number spell this number and no other one. -/
theorem Spells.of_toDigits {radix : Radix} {m : Nat} {n : Int}
    (h : Spells radix (Nat.toDigits 10 m) n) : radix = .decimal ∧ n = m := by
  obtain ⟨cs, hcs⟩ : ∃ cs, cs = Nat.toDigits 10 m := ⟨_, rfl⟩
  rw [← hcs] at h
  cases h with
  | decimal hread =>
    rw [hcs, digits?_toDigits] at hread
    exact ⟨rfl, congrArg Int.ofNat (Option.some_inj.1 hread).symm⟩
  | hexadecimal hmark =>
    have hread := digits?_toDigits m
    rw [← hcs, digits?_ten_mark hmark] at hread
    cases hread
  | minus => exact absurd hcs.symm (toDigits_ne_minus m _)

/-- The text of an integer spells this integer and no other one. -/
theorem Spells.of_toString {radix : Radix} {m n : Int} (h : Spells radix (toString m).toList n) :
    radix = .decimal ∧ n = m := by
  rw [toList_toString] at h
  cases m with
  | ofNat m => exact h.of_toDigits
  | negSucc m =>
    obtain ⟨cs, hcs⟩ : ∃ cs, cs = integerChars (.negSucc m) := ⟨_, rfl⟩
    rw [← hcs] at h
    cases h with
    | decimal hread =>
      have hsign : '-' ∈ integerChars (.negSucc m) := List.mem_cons_self
      rw [hcs, digits?_of_not_digit hsign rfl] at hread
      cases hread
    | hexadecimal => cases hcs
    | minus _ h =>
      obtain ⟨-, rfl⟩ := List.cons.inj hcs
      obtain ⟨rfl, rfl⟩ := h.of_toDigits
      exact ⟨rfl, rfl⟩

/-- A hexadecimal constant is not read as an integer. -/
theorem intLiteral?_of_mark {code : String} {mark : Char} (hmark : mark = 'x' ∨ mark = 'X')
    (hmem : mark ∈ code.toList) : intLiteral? code = none := by
  have hletter : isBlank mark = false ∧ mark ∉ ['(', ')'] ∧ digit? 10 mark = none ∧
      mark ∉ ['-', '+'] := by
    rcases hmark with rfl | rfl <;> decide
  obtain ⟨hvisible, hparens, hdigit, hsign⟩ := hletter
  exact signed?_of_not_digit (mem_peel hmem hvisible hparens _) hdigit hsign

end Text

open Text

namespace Emit

/-! ## Number blocks -/

theorem isHexLiteral_iff {cs : List Char} : isHexLiteral cs = true ↔
    ∃ mark digits, (mark = 'x' ∨ mark = 'X') ∧ cs = '0' :: mark :: digits ∧
      (signed? 16 digits).isSome = true := by
  unfold isHexLiteral
  split
  · simp
  · simp
  · next hx hX =>
    simp only [Bool.false_eq_true, false_iff]
    rintro ⟨mark, digits, rfl | rfl, rfl, -⟩
    · exact hx digits rfl
    · exact hX digits rfl

/-- A number block yields a decimal integer of 64 bits, or a text with a point, or a text that starts
like a hexadecimal constant. -/
theorem numberLiteral_cases (text : String) :
    (∃ m, least ≤ m ∧ m ≤ greatest ∧ numberLiteral text = toString m) ∨
      '.' ∈ (numberLiteral text).toList ∨
      ∃ mark digits, (mark = 'x' ∨ mark = 'X') ∧
        (numberLiteral text).toList = '0' :: mark :: digits := by
  have hzero : ∃ m, least ≤ m ∧ m ≤ greatest ∧ "0" = toString m := ⟨0, by decide, by decide, rfl⟩
  unfold numberLiteral
  dsimp only
  split
  · next m hm => exact .inl ⟨m, (range_of_signed? hm).1, (range_of_signed? hm).2, rfl⟩
  · split
    · next x _ =>
      rcases floatLiteral_chars x with hx | ⟨hpoint, -⟩
      · rw [hx]
        exact .inl hzero
      · exact .inr (.inl hpoint)
    · split
      · next hhex =>
        obtain ⟨mark, digits, hmark, hcs, -⟩ := isHexLiteral_iff.1 hhex
        exact .inr (.inr ⟨mark, digits, hmark, by rw [String.toList_ofList, hcs]⟩)
      · exact .inl hzero

/-- Of the constants that a number block yields, those are read as literals that are decimal. -/
theorem intLiteral?_numberLiteral {text : String} {radix : Radix} {n : Int}
    (h : Spells radix (numberLiteral text).toList n) :
    (radix = .decimal ∧ intLiteral? (numberLiteral text) = some n) ∨
      (radix = .hexadecimal ∧ intLiteral? (numberLiteral text) = none ∧
        ∃ mark digits, (mark = 'x' ∨ mark = 'X') ∧
          (numberLiteral text).toList = '0' :: mark :: digits) := by
  rcases numberLiteral_cases text with ⟨m, hleast, hgreatest, hm⟩ | hpoint |
    ⟨mark, digits, hmark, hcs⟩
  · rw [hm] at h ⊢
    obtain ⟨rfl, rfl⟩ := h.of_toString
    exact .inl ⟨rfl, intLiteral?_toString hleast hgreatest⟩
  · exact absurd hpoint h.not_mem_point
  · have hmem : mark ∈ (numberLiteral text).toList := by
      rw [hcs]
      exact List.mem_cons_of_mem _ List.mem_cons_self
    rw [hcs] at h
    exact .inr ⟨h.of_mark hmark, intLiteral?_of_mark hmark hmem, mark, digits, hmark, hcs⟩

end Emit

/-! ## Sockets with a range -/

theorem Text.clamp_eq {low high : Int} (h : low ≤ high) (n : Int) :
    clamp n low high = max low (min n high) := by
  unfold clamp
  omega

namespace Project

variable {p : Project} {b : Block} {socket : String} {o : Operand} {s t : Emission}

/-- An enabled number block is plugged into a socket, and the code that it yields in a state is the
given operand. -/
def YieldsNumber (p : Project) (s : Emission) (b : Block) (socket : String) (o : Operand) : Prop :=
  ∃ id child, p.plugged? b socket = some (id, child) ∧ child.type = Kind.number.name ∧
    (p.emit id s).1 = .expression o

theorem run_number (p : Project) (b : Block) (s : Emission) : (p.run (Emit.number p b) s).1 =
    ⟨Emit.numberLiteral (p.field b "NUM"),
      if (Emit.numberLiteral (p.field b "NUM")).toList.head? == some '-' then .unaryPrefix
      else .atomic⟩ := rfl

/-- A number block yields its constant in every state in which it is not being made. -/
theorem emit_number {id : BlockId} {child : Block} (hb : p.workspace.block? id = some child)
    (hkind : child.type = Kind.number.name) (s : Emission) : (p.emit id s).1 = .expression o ↔
      id ∉ s.active ∧ o = (p.run (Emit.number p child) s).1 := by
  by_cases hid : id ∈ s.active
  · rw [emit_of_active hb hid]
    simp only [hid, not_true_eq_false, false_and, iff_false]
    exact nofun
  · have hrecipe : Emit.recipe p id child = (Emitter.value (Emit.number p child)).fragment :=
      Emit.recipe_of_kind (hkind ▸ Kind.ofName?_name .number) id
    rw [emit_of_pure hb hid hrecipe]
    simp only [hid, not_false_eq_true, true_and]
    exact ⟨fun h => (Fragment.expression.inj h).symm, fun h => congrArg Fragment.expression h.symm⟩

namespace YieldsNumber

variable (h : p.YieldsNumber s b socket o)

include h

/-- The constant does not depend on what was made before. -/
theorem of_active_eq (ht : t.active = s.active) : p.YieldsNumber t b socket o := by
  obtain ⟨id, child, hplugged, hkind, hemit⟩ := h
  obtain ⟨-, hchild, -⟩ := plugged?_eq_some hplugged
  obtain ⟨hid, ho⟩ := (emit_number hchild hkind s).1 hemit
  exact ⟨id, child, hplugged, hkind, (emit_number hchild hkind t).2 ⟨ht ▸ hid, ho⟩⟩

theorem operand_eq : (p.run (Emit.operand p b socket) s).1 = some o := by
  obtain ⟨id, child, hplugged, -, hemit⟩ := h
  rw [Emit.operand_of_plugged hplugged, run_bind, run_code, hemit]
  rfl

theorem clampedValue_eq (low high : Int) (outer : Precedence) :
    (p.run (Emit.clampedValue p b socket low high outer) s).1 =
      match intLiteral? o.text with
      | some n => toString (clamp n low high)
      | none => o.within outer := by
  have hoperand : (p.run (Emit.operandOrDefault p b socket) s).1 = o := by
    rw [Emit.operandOrDefault, run_bind, h.operand_eq]
    rfl
  rw [Emit.clampedValue, run_bind, hoperand]
  cases intLiteral? o.text <;> rfl

theorem servoMove_eq (hsocket : socket = "ANGLE") :
    (p.run (Emit.servoMove p b) s).1 =
      "servo_angle(" ++ (p.run (Emit.pin p b "PIN") (p.run Emit.includeServo s).2).1 ++ ", " ++
        (match intLiteral? o.text with
        | some n => Emit.tenths n
        | none => o.within .multiplicative ++ " * 10") ++ ");\n" := by
  subst hsocket
  have hactive := (p.run_active (Emit.pin p b "PIN") (p.run Emit.includeServo s).2).trans
    (p.run_active Emit.includeServo s)
  have hangle : (p.run (Emit.servoAngle p b)
      (p.run (Emit.pin p b "PIN") (p.run Emit.includeServo s).2).2).1 =
      match intLiteral? o.text with
      | some n => Emit.tenths n
      | none => o.within .multiplicative ++ " * 10" := by
    rw [Emit.servoAngle, run_bind, (h.of_active_eq hactive).operand_eq]
    dsimp only
    cases intLiteral? o.text <;> rfl
  rw [Emit.servoMove, run_bind, run_bind, run_bind, hangle]
  rfl

/-- If the text of the number spells an integer, it is read as a literal exactly if it is decimal. A
hexadecimal one is an atom and never the text of an integer. -/
theorem literal_cases {radix : Radix} {n : Int} (hn : Spells radix o.text.toList n) :
    (radix = .decimal ∧ intLiteral? o.text = some n) ∨
      (radix = .hexadecimal ∧ intLiteral? o.text = none ∧ o.order = .atomic ∧
        ∀ m : Int, o.text ≠ toString m) := by
  obtain ⟨id, child, hplugged, hkind, hemit⟩ := h
  obtain ⟨-, hchild, -⟩ := plugged?_eq_some hplugged
  obtain ⟨-, ho⟩ := (emit_number hchild hkind s).1 hemit
  rw [run_number] at ho
  subst ho
  dsimp only at hn ⊢
  rcases Emit.intLiteral?_numberLiteral hn with hdecimal | ⟨hradix, hread, mark, digits, hmark, hcs⟩
  · exact .inl hdecimal
  · refine .inr ⟨hradix, hread, ?_, fun m hm => ?_⟩
    · rw [hcs]
      rfl
    · have htext : (toString m).toList = '0' :: mark :: digits := hm ▸ hcs
      have hnumeral : isNumeral mark = true :=
        isNumeral_of_mem_toString (htext ▸ List.mem_cons_of_mem _ List.mem_cons_self)
      rcases hmark with rfl | rfl <;> cases hnumeral

end YieldsNumber

/-- What becomes of the integer `n`, written as `literal`, in a socket with a range: a decimal constant is
moved into the range, and so is the angle of a servo, in tenths; a hexadecimal one stays as it is. -/
structure Clamps (p : Project) (s : Emission) (b : Block) (socket literal : String) (radix : Radix)
    (n : Int) : Prop where
  value : ∀ low high outer, low ≤ high → ∃ m, m = max low (min n high) ∧ low ≤ m ∧ m ≤ high ∧
    (low ≤ n → n ≤ high → m = n) ∧
    ((p.run (Emit.clampedValue p b socket low high outer) s).1 = toString m ↔ radix = .decimal)
  unclamped : radix = .hexadecimal → ∀ low high outer,
    (p.run (Emit.clampedValue p b socket low high outer) s).1 = literal
  servo : socket = "ANGLE" → (p.run (Emit.servoMove p b) s).1 =
    "servo_angle(" ++ (p.run (Emit.pin p b "PIN") (p.run Emit.includeServo s).2).1 ++ ", " ++
      (if radix = .decimal then toString (10 * max 0 (min n 180)) else literal ++ " * 10") ++ ");\n"

/-- In every state, a number block whose constant spells an integer is clamped exactly if the constant is
a decimal one. -/
theorem YieldsNumber.clamps (h : p.YieldsNumber s b socket o) {radix : Radix} {n : Int}
    (hn : Spells radix o.text.toList n) : p.Clamps s b socket o.text radix n := by
  rcases h.literal_cases hn with ⟨rfl, hread⟩ | ⟨rfl, hread, hatom, hne⟩
  · refine ⟨fun low high outer hrange => ⟨_, rfl, by omega, by omega, by omega, ?_⟩, nofun,
      fun hsocket => ?_⟩
    · rw [h.clampedValue_eq, hread, ← clamp_eq hrange]
      exact iff_of_true rfl rfl
    · have htenths : Emit.tenths n = toString (10 * max 0 (min n 180)) := by
        rw [Emit.tenths, clamp_eq (by decide), Int.mul_comm]
      rw [h.servoMove_eq hsocket, hread, if_pos rfl, ← htenths]
  · have hkept : ∀ low high outer,
        (p.run (Emit.clampedValue p b socket low high outer) s).1 = o.text := by
      intro low high outer
      rw [h.clampedValue_eq, hread]
      exact Emit.within_of_atomic hatom outer
    refine ⟨fun low high outer hrange => ⟨_, rfl, by omega, by omega, by omega, ?_⟩,
      fun _ => hkept, fun hsocket => ?_⟩
    · rw [hkept]
      exact iff_of_false (hne _) nofun
    · rw [h.servoMove_eq hsocket, hread, if_neg nofun]
      simp only [Emit.within_of_atomic hatom]

/-- A servo with a hexadecimal angle. -/
def overturned : Project where
  workspace :=
    { blocks := #[
        { id := "servo", type := "servo_move", values := ⟨[("ANGLE", 1)]⟩ },
        { id := "angle", type := "math_number", fields := ⟨[("NUM", "0xFF")]⟩ }]
      top := [0]
      index := [0, 1] }

theorem YieldsNumber.clamps_overturned :
    ∃ b, overturned.workspace.block? 0 = some b ∧
      overturned.YieldsNumber .empty b "ANGLE" (.atom "0xFF") ∧
      Spells .hexadecimal ['0', 'x', 'F', 'F'] 255 ∧
      overturned.Clamps .empty b "ANGLE" "0xFF" .hexadecimal 255 := by
  have hyields : overturned.YieldsNumber .empty
      { id := "servo", type := "servo_move", values := ⟨[("ANGLE", 1)]⟩ } "ANGLE"
      (.atom "0xFF") := ⟨1, _, rfl, rfl, by decide +kernel⟩
  have hspells : Spells .hexadecimal ['0', 'x', 'F', 'F'] 255 := .hexadecimal (.inl rfl) rfl
  exact ⟨_, rfl, hyields, hspells, hyields.clamps hspells⟩

end Project

end BlockCompiler
