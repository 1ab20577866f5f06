import BlockCompiler.Proofs.Expression.Writing
import Mathlib.Algebra.Order.Ring.Int
import Mathlib.Logic.Function.Basic
import Mathlib.Tactic.Ring

set_option autoImplicit false

/-! # Heads of counting loops

What the head of a `for` loop of C means that moves one variable: the grammar of such a head over the
tokens of its text, the values of its expressions over exact integers, and the values that the variable
takes while the loop runs around a body. A text is such a head in one way at most, and a loop takes one
sequence of values at most; it takes none if it does not end. -/

namespace BlockCompiler.Expression

/-! ## Values -/

/-- The values of variables. -/
abbrev Environment := List Char → Int

/-- Truth as a number. -/
def truth (b : Bool) : Int := if b then 1 else 0

/-- The value of two joined operands; operators that are neither sums, products nor comparisons have none
here. -/
def Operator.value? : Operator → Int → Int → Option Int
  | .times, a, b => some (a * b)
  | .plus, a, b => some (a + b)
  | .minus, a, b => some (a - b)
  | .less, a, b => some (truth (a < b))
  | .lessEqual, a, b => some (truth (a ≤ b))
  | .greater, a, b => some (truth (b < a))
  | .greaterEqual, a, b => some (truth (b ≤ a))
  | .equal, a, b => some (truth (a = b))
  | .unequal, a, b => some (truth (a ≠ b))
  | _, _, _ => none

/-- The value of an expression over exact integers; calls have none here. -/
def eval (env : Environment) : Expression → Option Int
  | .number n => some n
  | .name x => some (env x)
  | .call _ _ => none
  | .unary .minus e => (eval env e).map fun v => -v
  | .unary .not e => (eval env e).map fun v => truth (v = 0)
  | .binary o l r => do o.value? (← eval env l) (← eval env r)
  | .choice c y n => do if (← eval env c) = 0 then eval env n else eval env y

@[simp] theorem truth_eq_zero_iff {b : Bool} : truth b = 0 ↔ b = false := by
  cases b <;> decide

theorem eval_integer (env : Environment) (n : Int) : eval env (integer n) = some n := by
  cases n with
  | ofNat n => rfl
  | negSucc n => rfl

/-! ## Heads -/

/-- The head of a loop that moves a variable: `for (x = init; test; x += stride)`, or `-=`. -/
structure Head where
  counter : List Char
  init : Expression
  test : Expression
  move : Operator
  stride : Expression

/-- The tokens of marks that no expression has. -/
def assign : Token := .stray ['=']
def semicolon : Token := .stray [';']
def assignBy (o : Operator) : Token := .stray (o.sign ++ ['='])

/-- The grammar of such heads. -/
inductive Head.Reads : List Token → Head → Prop where
  | head (x : List Char) {o : Operator} {ts us vs : List Token} {a b c : Expression} :
    o = .plus ∨ o = .minus → Derives 12 ts a → Derives 12 us b → Derives 12 vs c →
    Reads (.name "for".toList :: .opening :: .name x :: assign :: (ts ++ semicolon :: (us ++
      semicolon :: .name x :: assignBy o :: (vs ++ [.closing])))) ⟨x, a, b, o, c⟩

theorem Derives.not_mem_stray {k : Nat} {ts : List Token} {e : Expression} (h : Derives k ts e)
    (cs : List Char) : Token.stray cs ∉ ts := by
  induction h with
  | number | name | callEmpty => simp
  | @call f ts e more _ _ ih ihmore =>
    have hmore : Token.stray cs ∉ more.flatMap further := by
      intro hmem
      obtain ⟨a, ha, hmem⟩ := List.mem_flatMap.1 hmem
      exact ihmore a ha ((List.mem_cons.1 hmem).resolve_left nofun)
    simp [ih, hmore]
  | parens _ ih => simp [ih]
  | looser _ _ ih => exact ih
  | unary u _ ih => cases u <;> simp [Sign.token, ih]
  | binary o _ _ ihl ihr => simp [ihl, ihr]
  | choice _ _ _ ihc ihy ihn => simp [ihc, ihy, ihn]

/-- What stands in front of the first stray token, and what stands behind it. -/
theorem eq_of_append_stray {ts ts' rest rest' : List Token} {cs : List Char}
    (h : Token.stray cs ∉ ts) (h' : Token.stray cs ∉ ts')
    (heq : ts ++ .stray cs :: rest = ts' ++ .stray cs :: rest') : ts = ts' ∧ rest = rest' := by
  rcases List.append_eq_append_iff.1 heq with ⟨us, rfl, hrest⟩ | ⟨us, rfl, hrest⟩
  · cases us with
    | nil => exact ⟨(List.append_nil ts).symm, (List.cons.inj hrest).2⟩
    | cons u us =>
      obtain ⟨rfl, -⟩ := List.cons.inj hrest
      exact absurd (List.mem_append_right ts List.mem_cons_self) h'
  · cases us with
    | nil => exact ⟨List.append_nil ts', (List.cons.inj hrest).2.symm⟩
    | cons u us =>
      obtain ⟨rfl, -⟩ := List.cons.inj hrest
      exact absurd (List.mem_append_right ts' List.mem_cons_self) h

/-- Tokens are the head of a loop in one way at most. -/
theorem Head.Reads.unique {ts : List Token} {h h' : Head} (hreads : Reads ts h)
    (hreads' : Reads ts h') : h = h' := by
  obtain ⟨all, hall⟩ : ∃ all, all = ts := ⟨_, rfl⟩
  rw [← hall] at hreads'
  cases hreads with
  | @head x o ts us vs a b c hmove ha hb hc =>
    cases hreads' with
    | @head x' o' ts' us' vs' a' b' c' hmove' ha' hb' hc' =>
      simp only [List.cons.injEq, Token.name.injEq, true_and] at hall
      obtain ⟨rfl, hinit⟩ := hall
      obtain ⟨rfl, htest⟩ := eq_of_append_stray (ha'.not_mem_stray _) (ha.not_mem_stray _) hinit
      obtain ⟨rfl, hrest⟩ := eq_of_append_stray (hb'.not_mem_stray _) (hb.not_mem_stray _) htest
      simp only [List.cons.injEq, true_and] at hrest
      obtain ⟨hsign, hstride⟩ := hrest
      obtain rfl := List.append_cancel_right hstride
      have hassign : o' = o := by
        rcases hmove with rfl | rfl <;> rcases hmove' with rfl | rfl <;> first | rfl | cases hsign
      rw [ha.unique ha', hb.unique hb', hc.unique hc', hassign]

theorem breaks_semicolon : Breaks ';' := breaks_of_forall_longMarks (by decide) (by decide)

theorem scan_semicolon (cs : List Char) : scan (';' :: cs) = semicolon :: scan cs :=
  scan_cons_of_alone (not_joins_of_forall_longMarks (by decide) (by decide)) (by decide) cs

/-- The text of a head, from the texts of its parts. -/
def Head.chars (x as bs : List Char) (o : Operator) (cs : List Char) : List Char :=
  "for".toList ++ ' ' :: '(' :: (x ++ ' ' :: '=' :: ' ' :: (as ++ ';' :: ' ' :: (bs ++ ';' :: ' ' ::
    (x ++ ' ' :: (o.sign ++ '=' :: ' ' :: (cs ++ [')']))))))

/-- The text of a head is read part by part. -/
theorem Head.reads_chars {x as bs cs : List Char} {o : Operator} {a b c : Expression}
    (hx : IsName x) (hmove : o = .plus ∨ o = .minus) (ha : Derives 12 (scan as) a)
    (hb : Derives 12 (scan bs) b) (hc : Derives 12 (scan cs) c) :
    Reads (scan (chars x as bs o cs)) ⟨x, a, b, o, c⟩ := by
  have hassign : ∀ rest, scan ('=' :: ' ' :: rest) = assign :: scan rest := fun _ => rfl
  have hassignBy : ∀ rest, scan (o.sign ++ '=' :: ' ' :: rest) = assignBy o :: scan rest := by
    rcases hmove with rfl | rfl <;> exact fun _ => rfl
  have hfor : scan "for".toList = [.name "for".toList] := rfl
  rw [chars, scan_append_of_breaks breaks_space, hfor, scan_space, scan_opening,
    scan_append_of_breaks breaks_space, hx.scan_eq, scan_space, hassign,
    scan_append_of_breaks breaks_semicolon, scan_semicolon, scan_space,
    scan_append_of_breaks breaks_semicolon, scan_semicolon, scan_space,
    scan_append_of_breaks breaks_space, hx.scan_eq, scan_space, hassignBy,
    scan_append_of_breaks breaks_closing, scan_closing, scan_nil]
  exact .head x hmove ha hb hc

/-! ## Runs -/

/-- A loop around a body, from where its variable is set: the values that the variable has at the body,
turn by turn. -/
inductive Head.Runs (h : Head) (body : Environment → Environment) : Environment → List Int → Prop where
  | ends {env : Environment} : eval env h.test = some 0 → Runs h body env []
  | again {env : Environment} {v next : Int} {values : List Int} :
    eval env h.test = some v → v ≠ 0 →
    eval (body env) (.binary h.move (.name h.counter) h.stride) = some next →
    Runs h body (Function.update (body env) h.counter next) values →
    Runs h body env (env h.counter :: values)

/-- A loop around a body ends, and its variable takes the given values. -/
def Head.Takes (h : Head) (body : Environment → Environment) (env : Environment)
    (values : List Int) : Prop :=
  ∃ v, eval env h.init = some v ∧ h.Runs body (Function.update env h.counter v) values

/-- A text is the head of a loop that ends around a body, and its variable takes the given values. -/
def Loops (head : String) (body : Environment → Environment) (env : Environment)
    (values : List Int) : Prop :=
  ∃ h, Head.Reads (scan head.toList) h ∧ h.Takes body env values

theorem loops_iff {head : String} {h : Head} (hreads : Head.Reads (scan head.toList) h)
    (body : Environment → Environment) (env : Environment) (values : List Int) :
    Loops head body env values ↔ h.Takes body env values :=
  ⟨fun ⟨_, hreads', htakes⟩ => hreads.unique hreads' ▸ htakes, fun htakes => ⟨h, hreads, htakes⟩⟩

/-! ## Counting -/

/-- Numbers at equal steps, `n` of them behind the first one. -/
def progression (first step : Int) (n : Nat) : List Int :=
  (List.range (n + 1)).map fun k : Nat => first + k * step

theorem progression_zero (first step : Int) : progression first step 0 = [first] := by
  simp [progression]

theorem progression_succ (first step : Int) (n : Nat) :
    progression first step (n + 1) = first :: progression (first + step) step n := by
  unfold progression
  rw [@List.range_succ_eq_map (n + 1), List.map_cons, List.map_map, Nat.cast_zero, zero_mul, add_zero]
  refine congrArg (first :: ·) (List.map_congr_left fun k _ => ?_)
  simp only [Function.comp_apply, Nat.cast_succ]
  ring

/-- The numbers from `first` towards `last` in steps of `stride`, as far as `last` is not passed. -/
def counted (first last : Int) (stride : Nat) : List Int :=
  progression first (if first ≤ last then stride else -stride) ((last - first).natAbs / stride)

example : counted 1 10 4 = [1, 5, 9] := by decide
example : counted 3 0 2 = [3, 1] := by decide

/-- While the variables have what `kept` says, a loop goes on as long as its variable has not passed
`last`, and moves it by `stride` in the direction of `sign`; around a body that keeps all this. -/
structure Head.Counts (h : Head) (body : Environment → Environment) (kept : Environment → Prop)
    (sign last : Int) (stride : Nat) : Prop where
  sign_eq : sign = 1 ∨ sign = -1
  test : ∀ env, kept env → eval env h.test = some (truth (0 ≤ sign * (last - env h.counter)))
  move : ∀ env, kept env → eval env (.binary h.move (.name h.counter) h.stride) =
    some (env h.counter + sign * stride)
  body : ∀ env, kept env → kept (body env) ∧ body env h.counter = env h.counter
  update : ∀ env v, kept env → kept (Function.update env h.counter v)

namespace Head.Counts

variable {h : Head} {body : Environment → Environment} {kept : Environment → Prop}
  {sign last : Int} {stride : Nat} (hcounts : h.Counts body kept sign last stride)

include hcounts

/-- What a turn does. -/
theorem turn {env : Environment} (henv : kept env) {next : Int}
    (hnext : eval (body env) (.binary h.move (.name h.counter) h.stride) = some next) :
    next = env h.counter + sign * stride ∧
      kept (Function.update (body env) h.counter next) ∧
      sign * (last - Function.update (body env) h.counter next h.counter) =
        sign * (last - env h.counter) - stride := by
  obtain ⟨hbody, hcounter⟩ := hcounts.body env henv
  rw [hcounts.move _ hbody, hcounter] at hnext
  obtain rfl := Option.some_inj.1 hnext
  refine ⟨rfl, hcounts.update _ _ hbody, ?_⟩
  rw [Function.update_self]
  rcases hcounts.sign_eq with rfl | rfl <;> ring

/-- Behind `last` the loop ends. -/
theorem eq_nil_of_passed {env : Environment} (henv : kept env) {values : List Int}
    (hpassed : sign * (last - env h.counter) < 0) (hruns : h.Runs body env values) : values = [] := by
  have htest := hcounts.test env henv
  rw [decide_eq_false (not_le.2 hpassed)] at htest
  cases hruns with
  | ends _ => rfl
  | again hv hne _ _ => exact absurd (Option.some_inj.1 (hv.symm.trans htest)) hne

theorem test_eq_true {env : Environment} (henv : kept env) {distance : Nat}
    (hdistance : sign * (last - env h.counter) = distance) : eval env h.test = some 1 := by
  rw [hcounts.test env henv, decide_eq_true (hdistance ▸ Int.natCast_nonneg distance)]
  rfl

/-- The values that a loop takes are those on the way to `last`, and its steps are not zero. -/
theorem eq_of_runs {env : Environment} {values : List Int} (hruns : h.Runs body env values)
    (henv : kept env) {distance : Nat} (hdistance : sign * (last - env h.counter) = distance) :
    0 < stride ∧ values = progression (env h.counter) (sign * stride) (distance / stride) := by
  induction hruns generalizing distance with
  | ends hv =>
    rw [hcounts.test_eq_true henv hdistance] at hv
    cases hv
  | @again env v next values _ _ hnext hrest ih =>
    obtain ⟨rfl, hkept, hleft⟩ := hcounts.turn henv hnext
    rw [hdistance] at hleft
    by_cases hlast : distance < stride
    · -- one more step would pass the end
      obtain rfl := hcounts.eq_nil_of_passed hkept (by omega) hrest
      rw [Nat.div_eq_of_lt hlast, progression_zero]
      exact ⟨by omega, rfl⟩
    · have hdistance' : sign * (last - Function.update (body env) h.counter
          (env h.counter + sign * stride) h.counter) = ((distance - stride : Nat) : Int) := by
        omega
      obtain ⟨hpos, rfl⟩ := ih hkept hdistance'
      refine ⟨hpos, ?_⟩
      rw [Nat.div_eq_sub_div hpos (Nat.le_of_not_lt hlast), progression_succ, Function.update_self]

/-- A loop whose steps are not zero takes the values on the way to `last` and ends. -/
theorem runs (hpos : 0 < stride) {env : Environment} (henv : kept env) {distance : Nat}
    (hdistance : sign * (last - env h.counter) = distance) :
    h.Runs body env (progression (env h.counter) (sign * stride) (distance / stride)) := by
  -- on the way that is left, which every turn shortens
  induction distance using Nat.strongRecOn generalizing env with
  | ind distance ih =>
    obtain ⟨hbody, hcounter⟩ := hcounts.body env henv
    have hnext := hcounts.move _ hbody
    rw [hcounter] at hnext
    obtain ⟨-, hkept, hleft⟩ := hcounts.turn henv hnext
    rw [hdistance] at hleft
    have htest := hcounts.test_eq_true henv hdistance
    by_cases hlast : distance < stride
    · have hends := hcounts.test _ hkept
      rw [hleft, decide_eq_false (by omega)] at hends
      rw [Nat.div_eq_of_lt hlast, progression_zero]
      exact .again htest one_ne_zero hnext (.ends hends)
    · have hrest := ih (distance - stride) (by omega) hkept (by omega)
      rw [Function.update_self] at hrest
      rw [Nat.div_eq_sub_div hpos (Nat.le_of_not_lt hlast), progression_succ]
      exact .again htest one_ne_zero hnext hrest

/-- A loop that counts from `first` takes the numbers towards `last` and ends; if its steps are zero, it
never ends. -/
theorem takes_iff {env : Environment} {first : Int} (hinit : eval env h.init = some first)
    (henv : kept env) (hsign : sign = if first ≤ last then 1 else -1) (values : List Int) :
    h.Takes body env values ↔ 0 < stride ∧ values = counted first last stride := by
  have hkept := hcounts.update env first henv
  have hdistance : sign * (last - Function.update env h.counter first h.counter) =
      ((last - first).natAbs : Int) := by
    rw [Function.update_self, hsign]
    split <;> omega
  have hcounted : progression (Function.update env h.counter first h.counter) (sign * stride)
      ((last - first).natAbs / stride) = counted first last stride := by
    rw [counted, Function.update_self, hsign]
    split <;> simp
  constructor
  · rintro ⟨v, hv, hruns⟩
    obtain rfl := Option.some_inj.1 (hv.symm.trans hinit)
    rw [← hcounted]
    exact hcounts.eq_of_runs hruns hkept hdistance
  · rintro ⟨hpos, rfl⟩
    rw [← hcounted]
    exact ⟨first, hinit, hcounts.runs hpos hkept hdistance⟩

end Head.Counts

end BlockCompiler.Expression
