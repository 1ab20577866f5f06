import BlockCompiler.Proofs.Expression.Loop

set_option autoImplicit false

/-! # Evaluation with readings

What an expression of C comes to over exact integers while the world goes on: the counter of the
machine, `rand()` and calls such as `input(3)` answer anew whenever they are evaluated. The readings
are numbered in the order in which an evaluation takes them, so an expression that stands twice in a
text takes its readings twice. Quotients and remainders are truncated and there are none by zero. -/

namespace BlockCompiler.Expression

/-! ## Worlds -/

/-- What a reading finds. A random number is not negative. -/
structure Moment where
  random : Nat
  counter : Int
  answer : List Char → List Int → Int

/-- What an expression is evaluated in: the values of variables, the power function, and the moments of
all readings that are ever taken. C leaves it to the compiler which one of two operands comes first. -/
structure World where
  env : Environment
  power : List Int → Int
  moment : Nat → Moment
  rightFirst : Bool

/-- The same world at other moments. -/
def World.during (w : World) (moment : Nat → Moment) : World := { w with moment }

/-- Something that goes on from a reading and comes to a value, if there is one, and to the reading that
is next then. -/
abbrev Course (α : Type) := Nat → Option (α × Nat)

/-- A value that takes no reading, if there is one. -/
def Course.still {α : Type} (value : Option α) : Course α := fun k => value.map (·, k)

/-- Two courses, in the order that the compiler has chosen. -/
def World.both {α β : Type} (w : World) (left : Course α) (right : Course β) : Course (α × β) := fun k =>
  if w.rightFirst then
    (right k).bind fun (b, k) => (left k).map fun (a, k) => ((a, b), k)
  else
    (left k).bind fun (a, k) => (right k).map fun (b, k) => ((a, b), k)

/-- The value of a call whose arguments are known. Everything but the power function is a reading. -/
def World.call (w : World) (f : List Char) (arguments : List Int) : Course Int := fun k =>
  if f = "pow".toList then some (w.power arguments, k)
  else if f = "rand".toList then some ((w.moment k).random, k + 1)
  else some ((w.moment k).answer f arguments, k + 1)

/-! ## Values -/

/-- The value of two joined operands. Operators on bits have none here. -/
def Operator.compute : Operator → Int → Int → Option Int
  | .divide, a, b => if b = 0 then none else some (a.tdiv b)
  | .remainder, a, b => if b = 0 then none else some (a.tmod b)
  | o, a, b => o.value? a b

/-- The truth of the left operand with which the right one is left out, and which is the outcome then. -/
def Operator.decisive? : Operator → Option Bool
  | .and => some false
  | .or => some true
  | _ => none

/-- The value of a sign in front of an operand. -/
def Sign.apply : Sign → Int → Int
  | .minus, a => -a
  | .not, a => truth (a = 0)

mutual

/-- The value of an expression. A choice leaves out the operand that does not matter. -/
def evaluate (w : World) : Expression → Course Int
  | .number n => .still (some n)
  | .name x => fun k =>
    if x = "CNT".toList then some ((w.moment k).counter, k + 1) else some (w.env x, k)
  | .call f arguments => fun k =>
    (evaluateAll w arguments k).bind fun (values, k) => w.call f values k
  | .unary u e => fun k => (evaluate w e k).map fun (a, k) => (u.apply a, k)
  | .binary o l r => fun k =>
    match o.decisive? with
    | some decisive => (evaluate w l k).bind fun (a, k) =>
      if decide (a ≠ 0) = decisive then some (truth decisive, k)
      else (evaluate w r k).map fun (b, k) => (truth (b ≠ 0), k)
    | none => (w.both (evaluate w l) (evaluate w r) k).bind fun (v, k) =>
      (o.compute v.1 v.2).map (·, k)
  | .choice c y n => fun k => (evaluate w c k).bind fun (a, k) =>
    if a = 0 then evaluate w n k else evaluate w y k

/-- The values of arguments. -/
def evaluateAll (w : World) : List Expression → Course (List Int)
  | [] => .still (some [])
  | e :: es => fun k => (w.both (evaluate w e) (evaluateAll w es) k).map fun (v, k) =>
    (v.1 :: v.2, k)

end

section Courses

variable {w : World} {l r : Expression} {o : Operator}

theorem evaluate_binary (ho : o.decisive? = none) (k : Nat) :
    evaluate w (.binary o l r) k = (w.both (evaluate w l) (evaluate w r) k).bind fun (v, k) =>
      (o.compute v.1 v.2).map (·, k) := by
  rw [evaluate]
  beta_reduce
  rw [ho]

/-! ## Operands that hang on one reading -/

/-- Wherever a course goes on from, one reading decides what it comes to. -/
def Course.Draws {α : Type} (c : Course α) (value : Nat → Option α) : Prop :=
  ∀ k, ∃ j k', c k = (value j).map (·, k')

/-- A course comes to the same value wherever it goes on from. -/
def Course.Always {α : Type} (c : Course α) (a : α) : Prop := ∀ k, ∃ k', c k = some (a, k')

theorem Course.always_still {α : Type} (a : α) : (Course.still (some a)).Always a :=
  fun k => ⟨k, rfl⟩

theorem Course.always_iff_draws {α : Type} {c : Course α} {a : α} :
    c.Always a ↔ c.Draws fun _ => some a :=
  forall_congr' fun _ => ⟨fun ⟨k', h⟩ => ⟨0, k', h⟩, fun ⟨_, k', h⟩ => ⟨k', h⟩⟩

theorem draws_rand : (evaluate w (.call "rand".toList [])).Draws
    fun j => some ((w.moment j).random : Int) :=
  fun k => ⟨k, k + 1, rfl⟩

section Both

variable {α β : Type} {c : Course α} {d : Course β} {a : α} {b : β}

theorem World.draws_both_left {value : Nat → Option α} (hc : c.Draws value) (hd : d.Always b) :
    (w.both c d).Draws fun j => (value j).map (·, b) := by
  intro k
  unfold World.both
  split
  · obtain ⟨k₁, hright⟩ := hd k
    obtain ⟨j, k₂, hleft⟩ := hc k₁
    exact ⟨j, k₂, by cases hv : value j <;> simp [hright, hleft, hv]⟩
  · obtain ⟨j, k₁, hleft⟩ := hc k
    obtain ⟨k₂, hright⟩ := hd k₁
    exact ⟨j, k₂, by cases hv : value j <;> simp [hright, hleft, hv]⟩

theorem World.draws_both_right {value : Nat → Option β} (hc : c.Always a) (hd : d.Draws value) :
    (w.both c d).Draws fun j => (value j).map (a, ·) := by
  intro k
  unfold World.both
  split
  · obtain ⟨j, k₁, hright⟩ := hd k
    obtain ⟨k₂, hleft⟩ := hc k₁
    exact ⟨j, k₂, by cases hv : value j <;> simp [hright, hleft, hv]⟩
  · obtain ⟨k₁, hleft⟩ := hc k
    obtain ⟨j, k₂, hright⟩ := hd k₁
    exact ⟨j, k₂, by cases hv : value j <;> simp [hright, hleft, hv]⟩

theorem World.always_both (hc : c.Always a) (hd : d.Always b) : (w.both c d).Always (a, b) :=
  Course.always_iff_draws.2 (draws_both_left (Course.always_iff_draws.1 hc) hd)

end Both

theorem draws_binary {value : Nat → Option (Int × Int)} (ho : o.decisive? = none)
    (h : (w.both (evaluate w l) (evaluate w r)).Draws value) :
    (evaluate w (.binary o l r)).Draws fun j => (value j).bind fun v => o.compute v.1 v.2 := by
  intro k
  obtain ⟨j, k', hboth⟩ := h k
  refine ⟨j, k', ?_⟩
  rw [evaluate_binary ho, hboth]
  cases hv : value j <;> simp [hv]

theorem always_binary {a b v : Int} (ho : o.decisive? = none) (hl : (evaluate w l).Always a)
    (hr : (evaluate w r).Always b) (hv : o.compute a b = some v) :
    (evaluate w (.binary o l r)).Always v := by
  have hdraws := draws_binary ho (Course.always_iff_draws.1 (World.always_both hl hr))
  rw [Course.always_iff_draws, ← hv]
  exact hdraws

/-! ## Expressions without readings -/

mutual

/-- Nothing in an expression is a reading. -/
def steady : Expression → Bool
  | .number _ => true
  | .name x => x != "CNT".toList
  | .call f arguments => f == "pow".toList && steadyAll arguments
  | .unary _ e => steady e
  | .binary _ l r => steady l && steady r
  | .choice c y n => steady c && steady y && steady n

def steadyAll : List Expression → Bool
  | [] => true
  | e :: es => steady e && steadyAll es

end

theorem World.both_still {α β : Type} (x : Option α) (y : Option β) :
    w.both (.still x) (.still y) = .still (x.bind fun a => y.map (a, ·)) := by
  funext k
  unfold World.both Course.still
  cases x <;> cases y <;> simp

mutual

/-- An expression without readings takes none, and no moment has a part in its value. -/
theorem evaluate_of_steady : (e : Expression) → e.steady = true →
    ∃ value, ∀ moment, evaluate (w.during moment) e = .still value
  | .number n, _ => ⟨some n, fun _ => rfl⟩
  | .name x, h => by
    have hx : x ≠ "CNT".toList := bne_iff_ne.1 h
    exact ⟨some (w.env x), fun _ => funext fun _ => if_neg hx⟩
  | .call f arguments, h => by
    obtain ⟨hf, harguments⟩ := Bool.and_eq_true_iff.1 h
    obtain ⟨values, hvalues⟩ := evaluateAll_of_steadyAll arguments harguments
    refine ⟨values.map w.power, fun moment => funext fun k => ?_⟩
    rw [evaluate, hvalues]
    cases values with
    | none => rfl
    | some values => exact if_pos (beq_iff_eq.1 hf)
  | .unary u e, h => by
    obtain ⟨value, hvalue⟩ := evaluate_of_steady e h
    refine ⟨value.map u.apply, fun moment => funext fun k => ?_⟩
    rw [evaluate, hvalue]
    cases value <;> rfl
  | .binary o l r, h => by
    obtain ⟨hl, hr⟩ := Bool.and_eq_true_iff.1 h
    obtain ⟨x, hx⟩ := evaluate_of_steady l hl
    obtain ⟨y, hy⟩ := evaluate_of_steady r hr
    cases ho : o.decisive? with
    | none =>
      refine ⟨x.bind fun a => y.bind fun b => o.compute a b, fun moment => funext fun k => ?_⟩
      rw [evaluate_binary ho, hx, hy, World.both_still]
      cases x <;> cases y <;> rfl
    | some decisive =>
      refine ⟨x.bind fun a => if decide (a ≠ 0) = decisive then some (truth decisive)
        else y.map fun b => truth (b ≠ 0), fun moment => funext fun k => ?_⟩
      rw [evaluate]
      beta_reduce
      rw [ho, hx, hy]
      cases x with
      | none => rfl
      | some a =>
        show (if decide (a ≠ 0) = decisive then _ else _) = Option.map _ (if _ then _ else _)
        split
        · rfl
        · cases y <;> rfl
  | .choice c y n, h => by
    obtain ⟨hcy, hn⟩ := Bool.and_eq_true_iff.1 h
    obtain ⟨hc, hy⟩ := Bool.and_eq_true_iff.1 hcy
    obtain ⟨test, htest⟩ := evaluate_of_steady c hc
    obtain ⟨yes, hyes⟩ := evaluate_of_steady y hy
    obtain ⟨no, hno⟩ := evaluate_of_steady n hn
    refine ⟨test.bind fun a => if a = 0 then no else yes, fun moment => funext fun k => ?_⟩
    rw [evaluate, htest, hyes, hno]
    cases test with
    | none => rfl
    | some a => by_cases ha : a = 0 <;> simp [Course.still, ha]

theorem evaluateAll_of_steadyAll : (es : List Expression) → steadyAll es = true →
    ∃ values, ∀ moment, evaluateAll (w.during moment) es = .still values
  | [], _ => ⟨some [], fun _ => rfl⟩
  | e :: es, h => by
    obtain ⟨he, hes⟩ := Bool.and_eq_true_iff.1 h
    obtain ⟨value, hvalue⟩ := evaluate_of_steady e he
    obtain ⟨values, hvalues⟩ := evaluateAll_of_steadyAll es hes
    refine ⟨value.bind fun v => values.map (v :: ·), fun moment => funext fun k => ?_⟩
    rw [evaluateAll, hvalue, hvalues, World.both_still]
    cases value <;> cases values <;> rfl

end

end Courses

end BlockCompiler.Expression
