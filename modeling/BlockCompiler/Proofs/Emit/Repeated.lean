import BlockCompiler.Proofs.Expression.Denotation
import BlockCompiler.Proofs.Expression.Evaluation

set_option autoImplicit false

/-! # Operands that stand twice

The code of a random number has the lower bound twice in it, and that of a limit has both operands
twice. What such a text comes to depends on whether an operand comes to the same value again. The span
of a random number is the divisor of a remainder, so it matters as well which bound is the lower one. -/

namespace BlockCompiler

namespace Expression

variable {w : World} {l r h : Expression}

/-- A text that stands for an expression is read as this one and as no other. -/
theorem Stands.reads_iff {outer : Precedence} {text : String} {e : Expression}
    (hstands : Stands outer text e) (e' : Expression) :
    Derives 12 (scan text.toList) e' ↔ e' = e :=
  ⟨fun h' => h'.unique hstands.loosest, fun heq => heq ▸ hstands.loosest⟩

/-! ## Random numbers -/

/-- What is drawn between two bounds when `rand()` answers `n`. -/
def drawn (low high : Int) (n : Nat) : Option Int :=
  if high - low + 1 = 0 then none else some (low + (n : Int).tmod (high - low + 1))

/-- Between two bounds that do not change, one answer of `rand()` decides. -/
theorem draws_between {low high : Int} (hl : (evaluate w l).Always low)
    (hh : (evaluate w h).Always high) :
    (evaluate w (between l h)).Draws fun j => drawn low high (w.moment j).random := by
  have hspan : (evaluate w (.binary .plus (.binary .minus h l) (.number 1))).Always
      (high - low + 1) :=
    always_binary rfl (always_binary rfl hh hl rfl) (Course.always_still 1) rfl
  have hoffset := draws_binary (o := .remainder) rfl (World.draws_both_left draws_rand hspan)
  have hsum := draws_binary (o := .plus) rfl (World.draws_both_right hl hoffset)
  intro k
  obtain ⟨j, k', hvalue⟩ := hsum k
  refine ⟨j, k', hvalue.trans (congrArg _ ?_)⟩
  show ((Operator.compute .remainder (w.moment j).random (high - low + 1)).map _).bind _ =
    drawn low high (w.moment j).random
  rw [drawn, Operator.compute]
  split <;> rfl

theorem drawn_eq_some_iff {low high v : Int} {n : Nat} :
    drawn low high n = some v ↔ high - low + 1 ≠ 0 ∧ v = low + n % (high - low + 1) := by
  -- the answer is not negative, so its remainder is not negative either
  rw [drawn, Int.tmod_eq_emod_of_nonneg (Int.natCast_nonneg n)]
  by_cases hspan : high - low + 1 = 0
  · simp [hspan]
  · simp [hspan, eq_comm]

theorem drawn_eq_none_iff {low high : Int} {n : Nat} : drawn low high n = none ↔ high = low - 1 := by
  rw [drawn]
  split <;> simp <;> omega

/-- A number that is drawn is between the bounds if these are in their order, and otherwise only if the
span divides the answer. -/
theorem between_bounds_iff_of_drawn {low high v : Int} {n : Nat} (hv : drawn low high n = some v) :
    (min low high ≤ v ∧ v ≤ max low high) ↔ low ≤ high ∨ high - low + 1 ∣ (n : Int) := by
  obtain ⟨hspan, rfl⟩ := drawn_eq_some_iff.1 hv
  have hnonneg := Int.emod_nonneg (n : Int) hspan
  have hlt := Int.emod_lt (n : Int) hspan
  rw [Int.dvd_iff_emod_eq_zero]
  omega

/-- The answer one tells bounds that are in their order, or a divisor of minus one, from all others. -/
theorem order_of_drawn_one {low high v : Int} (hv : drawn low high 1 = some v)
    (hbounds : min low high ≤ v ∧ v ≤ max low high) : low ≤ high ∨ high = low - 2 := by
  obtain ⟨hspan, -⟩ := drawn_eq_some_iff.1 hv
  rcases (between_bounds_iff_of_drawn hv).1 hbounds with horder | hdvd
  · exact .inl horder
  · have hone := Nat.dvd_one.1 (Int.natAbs_dvd_natAbs.2 hdvd)
    omega

theorem exists_drawn_between_bounds {low high : Int} (horder : low ≤ high ∨ high = low - 2) (n : Nat) :
    ∃ v, drawn low high n = some v ∧ min low high ≤ v ∧ v ≤ max low high := by
  have hspan : high - low + 1 ≠ 0 := by omega
  have hv : drawn low high n = some (low + n % (high - low + 1)) :=
    drawn_eq_some_iff.2 ⟨hspan, rfl⟩
  refine ⟨_, hv, (between_bounds_iff_of_drawn hv).2 (horder.imp_right fun hhigh => ?_)⟩
  have hminus : high - low + 1 = -1 := by omega
  rw [hminus]
  exact Int.neg_dvd.2 (one_dvd _)

section Code

variable {p : Project} {around : List BlockId} {b : Block} {s : Emission}

/-- The code of a random number, between bounds that do not change. It is read as a sum of the lower
bound and the remainder of an answer of `rand()`. There is no value exactly if the upper bound is one
less than the lower one, and what is drawn is between the bounds if these are in their order, and
otherwise only where the span divides the answer. So for every answer there is a number between the
bounds only if these are in their order, or if the upper one is two less than the lower one. -/
theorem random_draws (hl : Yields p around l (.socket b "A")) (hh : Yields p around h (.socket b "B"))
    (hs : s.Nested p.workspace) (hactive : s.active = around) (outer : Precedence) :
    (∀ e, Derives 12 (scan (((p.run (Emit.random p b) s).1.within outer).toList)) e ↔ e = between l h) ∧
    ∀ (w : World) (low high : Int),
      (∀ moment, (evaluate (w.during moment) l).Always low) →
      (∀ moment, (evaluate (w.during moment) h).Always high) →
      (∀ moment k, ∃ j k',
        evaluate (w.during moment) (between l h) k = (drawn low high (moment j).random).map (·, k') ∧
        (drawn low high (moment j).random = none ↔ high = low - 1) ∧
        ∀ v, drawn low high (moment j).random = some v →
          ((min low high ≤ v ∧ v ≤ max low high) ↔
            low ≤ high ∨ high - low + 1 ∣ ((moment j).random : Int))) ∧
      ((∀ moment k, ∃ v k', evaluate (w.during moment) (between l h) k = some (v, k') ∧
          min low high ≤ v ∧ v ≤ max low high) ↔ low ≤ high ∨ high = low - 2) := by
  refine ⟨((writes_random hl hh hs hactive).within outer).reads_iff, ?_⟩
  intro w low high hlow hhigh
  have hdraws : ∀ moment k, ∃ j k',
      evaluate (w.during moment) (between l h) k = (drawn low high (moment j).random).map (·, k') :=
    fun moment => draws_between (hlow moment) (hhigh moment)
  refine ⟨fun moment k => ?_, fun hall => ?_, fun horder moment k => ?_⟩
  · obtain ⟨j, k', hvalue⟩ := hdraws moment k
    exact ⟨j, k', hvalue, drawn_eq_none_iff, fun v hv => between_bounds_iff_of_drawn hv⟩
  · -- a world in which every answer is one
    obtain ⟨j, k', hvalue⟩ := hdraws (fun _ => ⟨1, 0, fun _ _ => 0⟩) 0
    obtain ⟨v, k'', hv, hbounds⟩ := hall (fun _ => ⟨1, 0, fun _ _ => 0⟩) 0
    rw [hvalue, Option.map_eq_some_iff] at hv
    obtain ⟨v', hdrawn, heq⟩ := hv
    obtain ⟨rfl, -⟩ := Prod.mk.inj heq
    exact order_of_drawn_one hdrawn hbounds
  · obtain ⟨j, k', hvalue⟩ := hdraws moment k
    obtain ⟨v, hv, hbounds⟩ := exists_drawn_between_bounds horder (moment j).random
    exact ⟨v, k', by rw [hvalue, hv, Option.map_some], hbounds⟩

end Code

/-- A random number between two and one. -/
def reversedDraw : Workspace where
  blocks := #[
    { id := "draw", type := "math_random", values := ⟨[("A", 1), ("B", 2)]⟩ },
    { id := "low", type := "math_number", fields := ⟨[("NUM", "2")]⟩ },
    { id := "high", type := "math_number", fields := ⟨[("NUM", "1")]⟩ }]

/-- The code `(2 + rand() % (1 - 2 + 1))` never has a value: its divisor is zero. -/
theorem random_draws_reversed :
    let p : Project := ⟨reversedDraw, .standard⟩
    let text := ((p.run (Emit.random p reversedDraw.blocks[0]) .empty).1.within .anything)
    text = "(2 + rand() % (1 - 2 + 1))" ∧
      ∃ e, (∀ e', Derives 12 (scan text.toList) e' ↔ e' = e) ∧ ∀ w k, evaluate w e k = none := by
  have hlow : Denotes ⟨reversedDraw, .standard⟩ [] (.socket reversedDraw.blocks[0] "A")
      (.number 2) :=
    .plugged rfl (by decide) rfl (.number (n := 2) (by decide))
  have hhigh : Denotes ⟨reversedDraw, .standard⟩ [] (.socket reversedDraw.blocks[0] "B")
      (.number 1) :=
    .plugged rfl (by decide) rfl (.number (n := 1) (by decide))
  obtain ⟨hreads, hvalues⟩ :=
    random_draws hlow.yields hhigh.yields (Emission.Nested.empty _) rfl .anything
  refine ⟨by decide, _, hreads, fun w k => ?_⟩
  obtain ⟨hdraws, -⟩ :=
    hvalues w 2 1 (fun _ => Course.always_still 2) fun _ => Course.always_still 1
  obtain ⟨j, k', hvalue, hnone, -⟩ := hdraws w.moment k
  rw [hnone.2 rfl] at hvalue
  exact hvalue

/-! ## Limits -/

/-- The first operand is taken. -/
def takesFirst (op : String) (x y : Int) : Bool := if op == "MAX" then y < x else x < y

/-- The lower or the higher of two numbers. -/
def extreme (op : String) (x y : Int) : Int := if op == "MAX" then max x y else min x y

theorem extreme_eq (op : String) (x y : Int) :
    extreme op x y = if takesFirst op x y then x else y := by
  unfold extreme takesFirst
  split <;> simp only [decide_eq_true_eq] <;> split <;> omega

/-- A choice by a comparison of what it chooses from evaluates one of the two again. -/
theorem evaluate_choice {o : Operator} {test : Int → Int → Bool} (ho : o.decisive? = none)
    (htest : ∀ x y, o.compute x y = some (truth (test x y))) (k : Nat) :
    evaluate w (.choice (.binary o l r) l r) k =
      (w.both (evaluate w l) (evaluate w r) k).bind fun (v, k) =>
        evaluate w (if test v.1 v.2 then l else r) k := by
  rw [evaluate]
  beta_reduce
  rw [evaluate_binary ho]
  cases w.both (evaluate w l) (evaluate w r) k with
  | none => rfl
  | some found =>
    obtain ⟨⟨x, y⟩, k'⟩ := found
    simp only [Option.bind_some, htest, Option.map_some, truth_eq_zero_iff]
    cases test x y <;> rfl

/-- A limit evaluates both operands, and then the one that it takes once more. -/
theorem evaluate_limit (op : String) (k : Nat) :
    evaluate w (limit op l r) k = (w.both (evaluate w l) (evaluate w r) k).bind fun (v, k) =>
      evaluate w (if takesFirst op v.1 v.2 then l else r) k := by
  unfold limit takesFirst
  split
  · exact evaluate_choice (o := .greater) rfl (fun _ _ => rfl) k
  · exact evaluate_choice (o := .less) rfl (fun _ _ => rfl) k

/-- What a limit comes to is the extreme of the two values exactly if the operand that it takes comes to
the same value once more. -/
theorem evaluate_limit_eq_extreme_iff {op : String} {x y : Int} {k k' : Nat}
    (hboth : w.both (evaluate w l) (evaluate w r) k = some ((x, y), k')) :
    (evaluate w (limit op l r) k).map Prod.fst = some (extreme op x y) ↔
      (evaluate w (if takesFirst op x y then l else r) k').map Prod.fst =
        some (if takesFirst op x y then x else y) := by
  rw [evaluate_limit, hboth, extreme_eq]
  rfl

theorem always_limit {op : String} {x y : Int} (hl : (evaluate w l).Always x)
    (hr : (evaluate w r).Always y) : (evaluate w (limit op l r)).Always (extreme op x y) := by
  intro k
  obtain ⟨k', hboth⟩ := World.always_both hl hr k
  rw [evaluate_limit, hboth, extreme_eq]
  show ∃ k'', evaluate w (if takesFirst op x y then l else r) k' = _
  split
  · exact hl k'
  · exact hr k'

/-- Without readings a limit comes to the extreme of its operands. -/
theorem evaluate_limit_of_steady {op : String} (hl : l.steady = true) (hr : r.steady = true) (k : Nat) :
    evaluate w (limit op l r) k =
      (w.both (evaluate w l) (evaluate w r) k).map fun (v, k) => (extreme op v.1 v.2, k) := by
  obtain ⟨x, hx⟩ := evaluate_of_steady l hl (w := w)
  obtain ⟨y, hy⟩ := evaluate_of_steady r hr (w := w)
  have hleft : evaluate w l = .still x := hx w.moment
  have hright : evaluate w r = .still y := hy w.moment
  rw [evaluate_limit, hleft, hright, World.both_still]
  cases x with
  | none => rfl
  | some x =>
    cases y with
    | none => rfl
    | some y =>
      simp only [Course.still, Option.bind_some, Option.map_some, extreme_eq]
      cases takesFirst op x y <;> simp [hleft, hright, Course.still]

/-- Next to something steady, the system counter can pass what it is compared with before it is taken. -/
theorem exists_limit_beyond (op : String) (hr : r.steady = true) {y : Int} {k k' : Nat}
    (hy : evaluate w r k = some (y, k')) :
    ∃ moment v k'', evaluate (w.during moment) (limit op (.name "CNT".toList) r) k = some (v, k'') ∧
      if op == "MAX" then v < y else y < v := by
  obtain ⟨value, hvalue⟩ := evaluate_of_steady r hr (w := w)
  have hsteady : value = some y := by
    have hstill : Course.still value k = some (y, k') := (congrFun (hvalue w.moment) k).symm.trans hy
    obtain ⟨v, rfl, hv⟩ := Option.map_eq_some_iff.1 hstill
    exact congrArg some (congrArg Prod.fst hv)
  subst hsteady
  -- the counter is on the one side first, and on the other side when it is read once more
  let shift : Int := if op == "MAX" then 1 else -1
  let moment : Nat → Moment := fun j =>
    ⟨0, if j = k then y + shift else y - shift, fun _ _ => 0⟩
  have hfirst : evaluate (w.during moment) (.name "CNT".toList) k = some (y + shift, k + 1) :=
    congrArg (fun v => some (v, k + 1)) (if_pos rfl)
  have hagain : evaluate (w.during moment) (.name "CNT".toList) (k + 1) = some (y - shift, k + 2) :=
    congrArg (fun v => some (v, k + 2)) (if_neg (Nat.succ_ne_self k))
  have hboth : (w.during moment).both (evaluate (w.during moment) (.name "CNT".toList))
      (evaluate (w.during moment) r) k = some ((y + shift, y), k + 1) := by
    unfold World.both
    simp only [hvalue moment, Course.still, hfirst, Option.map_some, Option.bind_some, ite_self]
  have htakes : takesFirst op (y + shift) y = true := by
    unfold takesFirst shift
    split <;> simp
  refine ⟨moment, y - shift, k + 2, ?_, ?_⟩
  · rw [evaluate_limit, hboth]
    show evaluate _ (if takesFirst op (y + shift) y then _ else r) (k + 1) = _
    rw [htakes, if_pos rfl, hagain]
  · unfold shift
    split <;> omega

section Code

variable {p : Project} {around : List BlockId} {b : Block} {s : Emission}

/-- The code of a limit, whatever is plugged in. It is read as a choice between its operands by their
comparison, so one evaluation of it evaluates both operands and then the one that it takes once more:
this third value is the result. It is the extreme of the two others exactly if the operand comes to the
same value again, as it does where the operands do not change or have no readings in them. Where the
first one is the system counter and the second one has no readings, the result can be beyond the second
one. -/
theorem limit_evaluates_again (hl : Yields p around l (.socket b "A"))
    (hr : Yields p around r (.socket b "B")) (hs : s.Nested p.workspace) (hactive : s.active = around)
    (outer : Precedence) :
    let op := p.field b "OP"
    (∀ e, Derives 12 (scan (((p.run (Emit.limit p b) s).1.within outer).toList)) e ↔
      e = limit op l r) ∧
    (∀ w k, evaluate w (limit op l r) k = (w.both (evaluate w l) (evaluate w r) k).bind
      fun (v, k) => evaluate w (if takesFirst op v.1 v.2 then l else r) k) ∧
    (∀ w x y k k', w.both (evaluate w l) (evaluate w r) k = some ((x, y), k') →
      ((evaluate w (limit op l r) k).map Prod.fst = some (extreme op x y) ↔
        (evaluate w (if takesFirst op x y then l else r) k').map Prod.fst =
          some (if takesFirst op x y then x else y))) ∧
    (∀ w x y, (evaluate w l).Always x → (evaluate w r).Always y →
      (evaluate w (limit op l r)).Always (extreme op x y)) ∧
    (l.steady = true → r.steady = true → ∀ w k, evaluate w (limit op l r) k =
      (w.both (evaluate w l) (evaluate w r) k).map fun (v, k) => (extreme op v.1 v.2, k)) ∧
    (l = .name "CNT".toList → r.steady = true → ∀ w y k k', evaluate w r k = some (y, k') →
      ∃ moment v k'', evaluate (w.during moment) (limit op l r) k = some (v, k'') ∧
        if op == "MAX" then v < y else y < v) := by
  refine ⟨((writes_limit hl hr hs hactive).within outer).reads_iff, fun _ => evaluate_limit _,
    fun _ _ _ _ _ => evaluate_limit_eq_extreme_iff, fun _ _ _ => always_limit,
    fun hl hr _ => evaluate_limit_of_steady hl hr, ?_⟩
  rintro rfl hr w y k k' hy
  exact exists_limit_beyond _ hr hy

end Code

/-- The lower one of a random number and of what is read from a pin. -/
def drawnOrRead : Workspace where
  blocks := #[
    { id := "limit", type := "math_limit", values := ⟨[("A", 1), ("B", 2)]⟩ },
    { id := "draw", type := "math_random" },
    { id := "pin", type := "check_pin", fields := ⟨[("PIN", "7")]⟩ }]

/-- The pin reads as fifty, and `rand()` answers nine first and eighty-nine when it is asked again. -/
def redrawn : World where
  env := fun _ => 0
  power := fun _ => 0
  moment := fun j => ⟨if j = 0 then 9 else 89, 0, fun _ _ => 50⟩
  rightFirst := false

/-- The lower one of ten and fifty comes to ninety. -/
theorem limit_evaluates_again_drawn :
    let p : Project := ⟨drawnOrRead, .standard⟩
    let text := ((p.run (Emit.limit p drawnOrRead.blocks[0]) .empty).1.within .anything)
    let drawn := between (.number 1) (.number 100)
    let read := call "input".toList [.number 7]
    text = "(1 + rand() % (100 - 1 + 1)) < input(7) ? (1 + rand() % (100 - 1 + 1)) : input(7)" ∧
      redrawn.both (evaluate redrawn drawn) (evaluate redrawn read) 0 = some ((10, 50), 2) ∧
      ∃ e, (∀ e', Derives 12 (scan text.toList) e' ↔ e' = e) ∧ evaluate redrawn e 0 = some (90, 3) := by
  have hdrawn : Denotes ⟨drawnOrRead, .standard⟩ [] (.socket drawnOrRead.blocks[0] "A")
      (between (.number 1) (.number 100)) :=
    .plugged rfl (by decide) rfl (.random (.empty rfl rfl) (.empty rfl rfl))
  have hread : Yields ⟨drawnOrRead, .standard⟩ [] (.call "input".toList [.number 7])
      (.socket drawnOrRead.blocks[0] "B") :=
    yields_plugged rfl (by decide) rfl (yields_checkPin (n := 7) rfl rfl)
  obtain ⟨hreads, hvalue, -⟩ :=
    limit_evaluates_again hdrawn.yields hread (Emission.Nested.empty _) rfl .anything
  refine ⟨by decide, rfl, _, hreads, ?_⟩
  rw [hvalue]
  rfl

end Expression

end BlockCompiler
