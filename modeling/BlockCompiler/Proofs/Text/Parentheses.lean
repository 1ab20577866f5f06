import BlockCompiler.Proofs.Decimal.Positional
import BlockCompiler.Proofs.Emit.Clamp
import BlockCompiler.Proofs.Text.Comment
import BlockCompiler.Proofs.Text.Quoted
import Mathlib.Data.String.Basic

set_option autoImplicit false

/-! # Integers in parentheses

`peel` counts down to be structural. This file takes parentheses off without a count, by the bytes of
the text, and finds that no turn cuts a byte that is not there or a part of a character. A text is a
literal just if it is a signed decimal integer in some number of parentheses that belong together, with
blanks anywhere between them. So one pair more or less makes no difference, and a value is taken for
the same literal whether it is looked at with its parentheses or without. -/

namespace BlockCompiler

namespace Text

/-! ## Blanks around a text -/

/-- Blanks around a text make no difference to what is left of it. -/
theorem trim_surrounded {lead trail : List Char} (hlead : allBlank lead = true)
    (htrail : allBlank trail = true) (cs : List Char) : trim (lead ++ cs ++ trail) = trim cs := by
  have hfront : trimLeft (lead ++ cs ++ trail) = trimLeft (cs ++ trail) := by
    rw [List.append_assoc]
    exact List.dropWhile_append_of_pos (List.all_eq_true.1 hlead)
  have hback : ∀ ds, trimRight (ds ++ trail) = trimRight ds := by
    intro ds
    rw [trimRight, List.reverse_append, List.dropWhile_append_of_pos fun c hc =>
      List.all_eq_true.1 htrail c (List.mem_reverse.1 hc)]
    rfl
  rw [trim, hfront, trimLeft, List.dropWhile_append]
  split
  · -- a text of blanks leaves nothing, with blanks behind it and without
    next hempty =>
    have hnone : trail.dropWhile isBlank = [] := List.dropWhile_eq_nil_iff.2 (List.all_eq_true.1 htrail)
    rw [hnone, trim, trimLeft, List.isEmpty_iff.1 hempty]
  · exact hback _

theorem length_trim_le (cs : List Char) : (trim cs).length ≤ cs.length := by
  obtain ⟨lead, trail, hcs, -, -⟩ := trim_spec cs
  have hlength := congrArg List.length hcs
  rw [List.length_append, List.length_append] at hlength
  omega

/-! ## Bytes of a text -/

/-- `part` stands in a text from byte `start` up to byte `stop`: both are in range, in this order, and
neither lies inside of a character. -/
def IsSlice (start stop : Nat) (cs part : List Char) : Prop :=
  ∃ front back, cs = front ++ part ++ back ∧ String.utf8Len front = start ∧
    start + String.utf8Len part = stop

/-- The text starts with a parenthesis and ends with the other one. -/
def IsEnclosed (cs : List Char) : Prop := cs.head? = some '(' ∧ cs.getLast? = some ')'

theorem isEnclosed_iff {cs : List Char} : IsEnclosed cs ↔ ∃ inner, cs = '(' :: (inner ++ [')']) := by
  constructor
  · rintro ⟨hhead, hlast⟩
    obtain ⟨rest, rfl⟩ := List.head?_eq_some_iff.1 hhead
    obtain ⟨front, hfront⟩ := List.getLast?_eq_some_iff.1 hlast
    -- one character is not both parentheses
    cases front with
    | nil => cases hfront
    | cons c inner =>
      obtain ⟨-, rfl⟩ := List.cons.inj hfront
      exact ⟨inner, rfl⟩
  · rintro ⟨inner, rfl⟩
    exact ⟨rfl, List.getLast?_eq_some_iff.2 ⟨'(' :: inner, rfl⟩⟩

/-- A text is split in one way in front of a byte. -/
theorem append_inj_of_utf8Len {cs ds cs' ds' : List Char} (h : cs ++ cs' = ds ++ ds')
    (hsize : String.utf8Len cs = String.utf8Len ds) : cs = ds ∧ cs' = ds' := by
  induction cs generalizing ds with
  | nil =>
    obtain rfl := String.utf8Len_eq_zero.1 hsize.symm
    exact ⟨rfl, h⟩
  | cons c cs ih =>
    cases ds with
    | nil => exact absurd (String.utf8Len_eq_zero.1 hsize) (List.cons_ne_nil c cs)
    | cons d ds =>
      obtain ⟨rfl, hrest⟩ := List.cons.inj h
      rw [String.utf8Len_cons, String.utf8Len_cons] at hsize
      obtain ⟨rfl, hback⟩ := ih hrest (Nat.add_right_cancel hsize)
      exact ⟨rfl, hback⟩

theorem IsSlice.unique {start stop : Nat} {cs part part' : List Char} (h : IsSlice start stop cs part)
    (h' : IsSlice start stop cs part') : part = part' := by
  obtain ⟨front, back, rfl, rfl, hstop⟩ := h
  obtain ⟨front', back', heq, hfront, hstop'⟩ := h'
  rw [List.append_assoc, List.append_assoc] at heq
  obtain ⟨-, hrest⟩ := append_inj_of_utf8Len heq hfront.symm
  exact (append_inj_of_utf8Len hrest (by omega)).1

/-- All bytes but the first and the last are what stands between the parentheses. -/
theorem isSlice_between (inner : List Char) :
    IsSlice 1 (String.utf8Len ('(' :: (inner ++ [')'])) - 1) ('(' :: (inner ++ [')'])) inner := by
  have hopen : Char.utf8Size '(' = 1 := rfl
  have hclose : Char.utf8Size ')' = 1 := rfl
  refine ⟨['('], [')'], rfl, rfl, ?_⟩
  rw [String.utf8Len_cons, String.utf8Len_append, String.utf8Len_cons, String.utf8Len_nil, hopen, hclose]
  omega

/-! ## Taking parentheses off -/

/-- Taking off parentheses makes a number of turns on a text and leaves the given characters. A turn is
made on a text that is enclosed but for blanks around it, and goes on with the bytes in between; there is
no rule for bytes that are out of range or cut a character. -/
inductive Strips : Nat → List Char → List Char → Prop
  | ends {cs : List Char} : ¬IsEnclosed (trim cs) → Strips 0 cs (trim cs)
  | turn {turns : Nat} {cs inner bare : List Char} : IsEnclosed (trim cs) →
    IsSlice 1 (String.utf8Len (trim cs) - 1) (trim cs) inner → Strips turns inner bare →
    Strips (turns + 1) cs bare

theorem Strips.pair {turns : Nat} {cs inner bare : List Char} (hcs : trim cs = '(' :: (inner ++ [')']))
    (h : Strips turns inner bare) : Strips (turns + 1) cs bare :=
  .turn (isEnclosed_iff.2 ⟨inner, hcs⟩) (hcs ▸ isSlice_between inner) h

/-- Parentheses are taken off in one way. -/
theorem Strips.unique {turns turns' : Nat} {cs bare bare' : List Char} (h : Strips turns cs bare)
    (h' : Strips turns' cs bare') : turns' = turns ∧ bare' = bare := by
  induction h generalizing turns' with
  | ends hopen =>
    cases h' with
    | ends => exact ⟨rfl, rfl⟩
    | turn henclosed => exact absurd henclosed hopen
  | turn henclosed hinner _ ih =>
    cases h' with
    | ends hopen => exact absurd henclosed hopen
    | turn _ hinner' hrest =>
      obtain ⟨rfl, rfl⟩ := ih (hinner.unique hinner' ▸ hrest)
      exact ⟨rfl, rfl⟩

theorem peel_of_not_isEnclosed {cs : List Char} (h : ¬IsEnclosed (trim cs)) (fuel : Nat) :
    peel fuel cs = trim cs := by
  cases fuel with
  | zero => rfl
  | succ fuel =>
    unfold peel
    split
    · next rest htrim =>
      rw [htrim]
      refine if_neg fun hlast => h ?_
      obtain ⟨inner, rfl⟩ := List.getLast?_eq_some_iff.1 (eq_of_beq hlast)
      exact isEnclosed_iff.2 ⟨inner, htrim⟩
    · rfl

theorem peel_of_pair {cs inner : List Char} (h : trim cs = '(' :: (inner ++ [')'])) (fuel : Nat) :
    peel (fuel + 1) cs = peel fuel inner := by
  rw [peel, h]
  simp only [List.getLast?_concat, beq_self_eq_true, if_true, List.dropLast_concat]

/-- The count outlasts the turns: each takes two characters off. -/
theorem strips_peel {fuel : Nat} {cs : List Char} (hfuel : cs.length ≤ fuel) :
    ∃ turns, 2 * turns ≤ cs.length ∧ Strips turns cs (peel fuel cs) := by
  induction fuel generalizing cs with
  | zero =>
    obtain rfl := List.length_eq_zero_iff.1 (Nat.le_zero.1 hfuel)
    exact ⟨0, Nat.zero_le _, .ends (by simp [IsEnclosed])⟩
  | succ fuel ih =>
    by_cases henclosed : IsEnclosed (trim cs)
    · obtain ⟨inner, hinner⟩ := isEnclosed_iff.1 henclosed
      have hlength : inner.length + 2 ≤ cs.length := by
        have htrim := length_trim_le cs
        rw [hinner, List.length_cons, List.length_append] at htrim
        exact htrim
      have hshorter : inner.length ≤ fuel := by omega
      obtain ⟨turns, hturns, hstrips⟩ := ih hshorter
      rw [peel_of_pair hinner]
      exact ⟨turns + 1, by omega, hstrips.pair hinner⟩
    · rw [peel_of_not_isEnclosed henclosed]
      exact ⟨0, Nat.zero_le _, .ends henclosed⟩

/-- Whatever parentheses are taken off of a text, the literal is what is left. -/
theorem Strips.intLiteral?_eq {turns : Nat} {code : String} {bare : List Char}
    (h : Strips turns code.toList bare) : intLiteral? code = signed? 10 bare := by
  obtain ⟨_, -, hpeel⟩ := strips_peel (Nat.le_refl code.toList.length)
  rw [intLiteral?, (h.unique hpeel).2]

/-! ## Literals -/

/-- The characters are `core` in `depth` pairs of parentheses. There may be blanks around the core and
on both sides of each parenthesis. -/
inductive IsNested (core : List Char) : Nat → List Char → Prop
  | core {lead trail : List Char} : allBlank lead = true → allBlank trail = true →
    IsNested core 0 (lead ++ core ++ trail)
  | pair {depth : Nat} {lead inner trail : List Char} : allBlank lead = true → allBlank trail = true →
    IsNested core depth inner → IsNested core (depth + 1) (lead ++ '(' :: (inner ++ [')']) ++ trail)

/-- Digits, behind a sign or not, denote an integer. -/
inductive IsSigned : List Char → Int → Prop
  | bare {cs : List Char} : IsDigits cs → IsSigned cs (Nat.ofDigitChars 10 cs 0)
  | plus {cs : List Char} : IsDigits cs → IsSigned ('+' :: cs) (Nat.ofDigitChars 10 cs 0)
  | minus {cs : List Char} : IsDigits cs → IsSigned ('-' :: cs) (-(Nat.ofDigitChars 10 cs 0 : Int))

theorem digit?_ten_of_not_isDigit {c : Char} (h : c.isDigit = false) : digit? 10 c = none := by
  have hrange : ¬(48 ≤ c.toNat ∧ c.toNat ≤ 57) := fun hc => by rw [isDigit_iff.2 hc] at h; cases h
  have hdigit : ¬('0' ≤ c ∧ c ≤ '9') := hrange
  refine Option.filter_eq_none_iff.2 fun m hm => ?_
  simp only [Bool.and_eq_true, decide_eq_true_eq, if_neg hdigit] at hm
  -- letters follow the digits, so they count ten and more
  split at hm
  · next hlower =>
    have hc : 97 ≤ c.toNat := hlower.1
    obtain rfl := Option.some_inj.1 hm
    simp only [decide_eq_true_eq]
    omega
  · split at hm
    · next hupper =>
      have hc : 65 ≤ c.toNat := hupper.1
      obtain rfl := Option.some_inj.1 hm
      simp only [decide_eq_true_eq]
      omega
    · cases hm

/-- Digits are read as the number that they denote. -/
theorem digits?_ten_eq_some_iff {cs : List Char} {m : Nat} :
    digits? 10 cs = some m ↔ IsDigits cs ∧ m = Nat.ofDigitChars 10 cs 0 := by
  have hread : IsDigits cs → digits? 10 cs = some (Nat.ofDigitChars 10 cs 0) := fun h => by
    rw [digits?, if_neg (by simp [h.ne_nil]), digitsFrom?_of_isDigit h.isDigit]
  constructor
  · intro h
    have hdigits : IsDigits cs := by
      refine ⟨?_, fun c hc => ?_⟩
      · rintro rfl
        cases h
      · by_contra hdigit
        exact not_mem_of_digits? h (digit?_ten_of_not_isDigit (Bool.eq_false_iff.2 hdigit)) hc
    rw [hread hdigits] at h
    exact ⟨hdigits, (Option.some_inj.1 h).symm⟩
  · rintro ⟨hdigits, rfl⟩
    exact hread hdigits

theorem splitSign_of_isDigits {cs : List Char} (h : IsDigits cs) : splitSign cs = (false, cs) := by
  unfold splitSign
  split
  · exact absurd (h.isDigit _ List.mem_cons_self) (by decide)
  · exact absurd (h.isDigit _ List.mem_cons_self) (by decide)
  · rfl

theorem isSigned_iff {cs : List Char} {n : Int} : IsSigned cs n ↔
    ∃ m, digits? 10 (splitSign cs).2 = some m ∧ n = if (splitSign cs).1 then -(m : Int) else m := by
  constructor
  · intro h
    cases h with
    | bare hdigits =>
      rw [splitSign_of_isDigits hdigits]
      exact ⟨_, digits?_ten_eq_some_iff.2 ⟨hdigits, rfl⟩, rfl⟩
    | plus hdigits => exact ⟨_, digits?_ten_eq_some_iff.2 ⟨hdigits, rfl⟩, rfl⟩
    | minus hdigits => exact ⟨_, digits?_ten_eq_some_iff.2 ⟨hdigits, rfl⟩, rfl⟩
  · rintro ⟨m, hread, rfl⟩
    unfold splitSign at hread ⊢
    split at hread
    · obtain ⟨hdigits, rfl⟩ := digits?_ten_eq_some_iff.1 hread
      exact .minus hdigits
    · obtain ⟨hdigits, rfl⟩ := digits?_ten_eq_some_iff.1 hread
      exact .plus hdigits
    · obtain ⟨hdigits, rfl⟩ := digits?_ten_eq_some_iff.1 hread
      exact .bare hdigits

/-- A text is read as an integer just if it denotes it and the integer has 64 bits. -/
theorem signed?_ten_eq_some_iff {cs : List Char} {n : Int} :
    signed? 10 cs = some n ↔ IsSigned cs n ∧ least ≤ n ∧ n ≤ greatest := by
  have hrange : (decide (least ≤ n) && decide (n ≤ greatest)) = true ↔ least ≤ n ∧ n ≤ greatest := by
    simp
  rw [isSigned_iff, ← hrange]
  refine Option.filter_eq_some_iff.trans (and_congr_left fun _ => ?_)
  refine Option.map_eq_some_iff.trans (exists_congr fun m => and_congr_right fun _ => eq_comm)

theorem IsSigned.cases_mem {cs : List Char} {n : Int} (h : IsSigned cs n) {c : Char} (hc : c ∈ cs) :
    isNumeral c = true ∨ c = '+' := by
  have hnumeral : ∀ {ds : List Char}, IsDigits ds → c ∈ ds → isNumeral c = true := fun hdigits hmem => by
    rw [isNumeral, hdigits.isDigit c hmem, Bool.true_or]
  cases h with
  | bare hdigits => exact .inl (hnumeral hdigits hc)
  | plus hdigits => exact (List.mem_cons.1 hc).elim .inr fun hmem => .inl (hnumeral hdigits hmem)
  | minus hdigits =>
    exact .inl ((List.mem_cons.1 hc).elim (fun hsign => hsign ▸ rfl) (hnumeral hdigits))

theorem IsSigned.trim_eq {cs : List Char} {n : Int} (h : IsSigned cs n) : trim cs = cs := by
  refine trim_eq_self fun c hc => ?_
  rcases h.cases_mem hc with hnumeral | rfl
  · exact not_isBlank_of_isNumeral hnumeral
  · rfl

theorem IsSigned.not_isEnclosed {cs : List Char} {n : Int} (h : IsSigned cs n) : ¬IsEnclosed cs := by
  intro henclosed
  obtain ⟨inner, rfl⟩ := isEnclosed_iff.1 henclosed
  exact (h.cases_mem List.mem_cons_self).elim (by decide) (by decide)

/-- Parentheses that belong together are taken off one pair after the other. -/
theorem IsNested.strips {core cs : List Char} {depth : Nat} (h : IsNested core depth cs)
    (htrim : trim core = core) (hbare : ¬IsEnclosed core) : Strips depth cs core := by
  induction h with
  | @core lead trail hlead htrail =>
    have hleft : trim (lead ++ core ++ trail) = core := (trim_surrounded hlead htrail core).trans htrim
    have hends : Strips 0 (lead ++ core ++ trail) (trim (lead ++ core ++ trail)) :=
      .ends (hleft.symm ▸ hbare)
    rwa [hleft] at hends
  | @pair depth lead inner trail hlead htrail _ ih =>
    refine ih.pair ((trim_surrounded hlead htrail _).trans ?_)
    rw [trim_cons rfl, trimRight_append_cons rfl]
    rfl

/-- What is taken off belongs together. -/
theorem Strips.isNested {turns : Nat} {cs bare : List Char} (h : Strips turns cs bare) :
    IsNested bare turns cs := by
  induction h with
  | @ends cs _ =>
    obtain ⟨lead, trail, hcs, hlead, htrail⟩ := trim_spec cs
    have hcore : IsNested (trim cs) 0 (lead ++ trim cs ++ trail) :=
      .core (List.all_eq_true.2 hlead) (List.all_eq_true.2 htrail)
    rwa [← hcs] at hcore
  | @turn turns cs inner bare henclosed hslice _ ih =>
    obtain ⟨lead, trail, hcs, hlead, htrail⟩ := trim_spec cs
    obtain ⟨between, htrim⟩ := isEnclosed_iff.1 henclosed
    rw [htrim] at hslice hcs
    obtain rfl := hslice.unique (isSlice_between between)
    rw [hcs]
    exact .pair (List.all_eq_true.2 hlead) (List.all_eq_true.2 htrail) ih

/-- A text is a literal just if it is an integer of 64 bits in some number of parentheses. -/
theorem intLiteral?_eq_some_iff {code : String} {n : Int} : intLiteral? code = some n ↔
    ∃ depth core, IsNested core depth code.toList ∧ IsSigned core n ∧ least ≤ n ∧ n ≤ greatest := by
  constructor
  · intro h
    obtain ⟨turns, -, hstrips⟩ := strips_peel (Nat.le_refl code.toList.length)
    exact ⟨turns, _, hstrips.isNested, signed?_ten_eq_some_iff.1 h⟩
  · rintro ⟨depth, core, hnested, hsigned, hrange⟩
    rw [(hnested.strips hsigned.trim_eq hsigned.not_isEnclosed).intLiteral?_eq]
    exact signed?_ten_eq_some_iff.2 ⟨hsigned, hrange⟩

example : intLiteral? "\u3000( (+07 )\t)" = some 7 := by decide +kernel
example : intLiteral? "(1) + (2)" = none := by decide +kernel

/-- One more pair of parentheses makes no difference, not even around some that do not belong together. -/
theorem intLiteral?_parens (code : String) : intLiteral? ("(" ++ code ++ ")") = intLiteral? code := by
  have hchars : ("(" ++ code ++ ")").toList = '(' :: (code.toList ++ [')']) := by simp
  have htrim : trim ("(" ++ code ++ ")").toList = '(' :: (code.toList ++ [')']) := by
    rw [hchars, trim_cons rfl, trimRight_append_cons rfl]
    rfl
  obtain ⟨turns, -, hstrips⟩ := strips_peel (Nat.le_refl code.toList.length)
  rw [(hstrips.pair htrim).intLiteral?_eq, hstrips.intLiteral?_eq]

theorem intLiteral?_wrap (code : String) (inner outer : Precedence) :
    intLiteral? (Precedence.wrap code inner outer) = intLiteral? code := by
  unfold Precedence.wrap
  split
  · exact intLiteral?_parens code
  · rfl

end Text

open Text

/-! ## Values -/

/-- The value of a socket is taken for the same literal where it is looked at with the parentheses of its
place and where it is looked at without. -/
theorem Project.intLiteral?_value (p : Project) (b : Block) (socket : String) (outer : Precedence)
    (s : Emission) : intLiteral? (p.run (Emit.value p b socket outer) s).1 =
      intLiteral? (p.run (Emit.operandOrDefault p b socket) s).1.text := by
  rw [Emit.value, Emit.value?, Emit.operandOrDefault, run_bind, run_bind, run_bind]
  cases (p.run (Emit.operand p b socket) s).1 with
  | none => rfl
  | some found => exact intLiteral?_wrap found.text found.order outer

/-- Literals are found for every text. Parentheses are taken off in one way, in at most half as many turns
as there are characters, and what is left is read as an integer. A text is the literal of a number just if
it is a decimal integer of 64 bits with that value in some number of parentheses, with blanks between them.
The parentheses that a place asks for make no difference, so that all who look at the value of a socket
find the same literal. -/
theorem Text.intLiteral?_seesThrough (code : String) :
    (∃ turns bare, 2 * turns ≤ code.toList.length ∧
      (∀ turns' bare', Strips turns' code.toList bare' ↔ turns' = turns ∧ bare' = bare) ∧
      intLiteral? code = signed? 10 bare) ∧
    (∀ n, intLiteral? code = some n ↔ ∃ depth core, IsNested core depth code.toList ∧
      IsSigned core n ∧ least ≤ n ∧ n ≤ greatest) ∧
    (∀ inner outer, intLiteral? (Precedence.wrap code inner outer) = intLiteral? code) ∧
    ∀ (p : Project) b socket outer s, (p.run (Emit.operandOrDefault p b socket) s).1.text = code →
      intLiteral? (p.run (Emit.value p b socket outer) s).1 = intLiteral? code := by
  refine ⟨?_, fun n => intLiteral?_eq_some_iff, intLiteral?_wrap code, ?_⟩
  · obtain ⟨turns, hturns, hstrips⟩ := strips_peel (Nat.le_refl code.toList.length)
    refine ⟨turns, _, hturns, fun turns' bare' => ⟨hstrips.unique, ?_⟩, rfl⟩
    rintro ⟨rfl, rfl⟩
    exact hstrips
  · rintro p b socket outer s rfl
    exact p.intLiteral?_value b socket outer s

end BlockCompiler
