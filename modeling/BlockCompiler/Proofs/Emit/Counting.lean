import BlockCompiler.Emit.Flow
import BlockCompiler.Proofs.Emission.Nesting
import BlockCompiler.Proofs.Expression.Loop
import BlockCompiler.Proofs.Text.Literal
import Mathlib.Tactic.Convert

set_option autoImplicit false

/-! # Counting loops

A counting loop has one of two heads. Where bounds and step are literals the direction is known, and the
step is at least one. Otherwise they are in temporaries, the direction is chosen whenever the loop is
tested, and the step is the magnitude of what the socket says. Over exact integers both heads make the
variable take the same values, unless the step is zero: then only the first one ends. -/

namespace BlockCompiler

/-! ## Names -/

/-- The name of a temporary. -/
def Emit.temporary (stem : String) (n : Nat) : String := "_" ++ stem ++ toString n

theorem Emit.toList_temporary (stem : String) (n : Nat) :
    (temporary stem n).toList = '_' :: (stem.toList ++ Nat.toDigits 10 n) := by
  rw [temporary, String.toList_append, String.toList_append, Nat.toString_eq_repr, Nat.toList_repr]
  rfl

theorem Emit.isName_temporary {stem : String} (hstem : stem.toList.all Identifier.isWordChar = true)
    (n : Nat) : Expression.IsName (temporary stem n).toList := by
  have hdigits : (Nat.toDigits 10 n).all Identifier.isWordChar = true :=
    List.all_eq_true.2 fun c hc => Expression.isWordChar_of_isDigit (Text.isDigit_of_mem_toDigits hc)
  rw [toList_temporary]
  refine ⟨?_, '_', _, rfl, by decide⟩
  rw [List.all_cons, List.all_append, hstem, hdigits]
  decide

/-! ## Parts of a head -/

namespace Expression

theorem IsName.derives {x : List Char} (h : IsName x) : Derives 0 (scan x) (.name x) := by
  rw [h.scan_eq]
  exact .name x

theorem IsName.scan_negated {x : List Char} (hx : IsName x) :
    scan ('-' :: x) = [.operator .minus, .name x] := by
  obtain ⟨c, rest, rfl, -⟩ := hx.leads
  have hword := List.all_eq_true.1 hx.word c List.mem_cons_self
  have hmark : ['-', c] ∉ longMarks := by
    intro hmem
    have hmarks : ∀ mark ∈ longMarks, mark.head? = some '-' →
        mark.tail.any Identifier.isWordChar = false := by
      decide
    have hnone := hmarks _ hmem rfl
    rw [List.tail_cons, List.any_cons, hword, Bool.true_or] at hnone
    cases hnone
  rw [scan_mark (by decide) (by decide) hmark, hx.scan_eq]
  rfl

theorem derives_integer (n : Int) : Derives 1 (scan (toString n).toList) (integer n) := by
  refine (Writes.integer n).derives.looser ?_
  show (if (toString n).toList.head? == some '-' then Precedence.unaryPrefix else .atomic).level - 1 ≤ 1
  split <;> decide

/-- The text of two operands that are compared. -/
def comparisonChars (xs : List Char) (o : Operator) (ys : List Char) : List Char :=
  xs ++ ' ' :: (o.sign ++ ' ' :: ys)

theorem derives_comparison {o : Operator} (ho : o.rank = 5) {xs ys : List Char} {l r : Expression}
    (hl : Derives 1 (scan xs) l) (hr : Derives 1 (scan ys) r) :
    Derives 5 (scan (comparisonChars xs o ys)) (.binary o l r) := by
  have hleft : Derives o.rank (scan xs) l := hl.looser (by omega)
  have hright : Derives (o.rank - 1) (scan ys) r := hr.looser (by omega)
  rw [comparisonChars, scan_between, ← ho]
  exact hleft.binary o hright

/-- The text of a choice between two expressions. -/
def choiceChars (cs ys ns : List Char) : List Char :=
  cs ++ ' ' :: '?' :: ' ' :: (ys ++ ' ' :: ':' :: ' ' :: ns)

theorem derives_choice {cs ys ns : List Char} {c y n : Expression} (hc : Derives 11 (scan cs) c)
    (hy : Derives 12 (scan ys) y) (hn : Derives 12 (scan ns) n) :
    Derives 12 (scan (choiceChars cs ys ns)) (.choice c y n) := by
  rw [choiceChars, scan_append_of_breaks breaks_space, scan_space, scan_question, scan_space,
    scan_append_of_breaks breaks_space, scan_space, scan_colon, scan_space]
  have hchoice := hc.choice hy hn
  rwa [List.append_assoc] at hchoice

end Expression

namespace Emit

open Expression

/-! ## The two heads -/

/-- The sign of the way from one number to another. -/
def direction (first last : Int) : Int := if first ≤ last then 1 else -1

theorem direction_cases (first last : Int) : direction first last = 1 ∨ direction first last = -1 := by
  unfold direction
  split
  · exact .inl rfl
  · exact .inr rfl

/-- The head whose bounds and step are literals. -/
def literalLoop (x : List Char) (first last step : Int) : Head where
  counter := x
  init := integer first
  test := .binary (if first ≤ last then .lessEqual else .greaterEqual) (.name x) (integer last)
  move := if first ≤ last then .plus else .minus
  stride := .number (max step.natAbs 1)

/-- The head whose bounds and step are in temporaries. -/
def computedLoop (x first last step : List Char) : Head where
  counter := x
  init := .name first
  test := .choice (.binary .lessEqual (.name first) (.name last))
    (.binary .lessEqual (.name x) (.name last)) (.binary .greaterEqual (.name x) (.name last))
  move := .plus
  stride := .choice (.binary .lessEqual (.name first) (.name last)) (.name step)
    (.unary .minus (.name step))

/-- All steps but the least one have their magnitude in 64 bits. -/
theorem stride_eq {step : Int} (hstep : step ≠ Text.least) :
    max (Text.magnitude step) 1 = ((max step.natAbs 1 : Nat) : Int) := by
  rw [Text.magnitude, if_neg hstep]
  omega

theorem toList_literalHead (name : String) (first last : Int) {step : Int}
    (hstep : step ≠ Text.least) :
    (literalHead name first last step).toList =
      Head.chars name.toList (toString first).toList
        (comparisonChars name.toList (if first ≤ last then .lessEqual else .greaterEqual)
          (toString last).toList)
        (if first ≤ last then .plus else .minus) (toString (max step.natAbs 1)).toList := by
  have hstride : toString (max (Text.magnitude step) 1) = toString (max step.natAbs 1) :=
    congrArg toString (stride_eq hstep)
  unfold literalHead
  rw [hstride]
  generalize toString first = init
  generalize toString last = limit
  generalize toString (max step.natAbs 1) = stride
  by_cases h : first ≤ last <;>
    simp [h, Head.chars, comparisonChars, String.toList_append, Operator.sign]

theorem reads_literalHead {name : String} (hname : IsName name.toList) (first last : Int) {step : Int}
    (hstep : step ≠ Text.least) :
    Head.Reads (scan (literalHead name first last step).toList)
      (literalLoop name.toList first last step) := by
  rw [toList_literalHead name first last hstep]
  refine Head.reads_chars hname ?_ ((derives_integer first).looser (by decide)) ?_
    ((Writes.number _).derives.looser (Nat.zero_le 12))
  · split
    · exact .inl rfl
    · exact .inr rfl
  · refine (derives_comparison ?_ (hname.derives.looser (by decide))
      (derives_integer last)).looser (by decide)
    split <;> rfl

theorem toList_computedHead (name first last step : String) :
    (computedHead name first last step).toList =
      Head.chars name.toList first.toList
        (choiceChars (comparisonChars first.toList .lessEqual last.toList)
          (comparisonChars name.toList .lessEqual last.toList)
          (comparisonChars name.toList .greaterEqual last.toList))
        .plus
        (choiceChars (comparisonChars first.toList .lessEqual last.toList) step.toList
          ('-' :: step.toList)) := by
  unfold computedHead
  simp [Head.chars, comparisonChars, choiceChars, String.toList_append, Operator.sign]

theorem reads_computedHead {name first last step : String} (hname : IsName name.toList)
    (hfirst : IsName first.toList) (hlast : IsName last.toList) (hstep : IsName step.toList) :
    Head.Reads (scan (computedHead name first last step).toList)
      (computedLoop name.toList first.toList last.toList step.toList) := by
  have hcompare : ∀ {o : Operator} {x y : List Char}, o.rank = 5 → IsName x → IsName y →
      Derives 11 (scan (comparisonChars x o y)) (.binary o (.name x) (.name y)) := fun ho hx hy =>
    (derives_comparison ho (hx.derives.looser (by decide)) (hy.derives.looser (by decide))).looser
      (by decide)
  have hascends := hcompare (o := .lessEqual) rfl hfirst hlast
  have hnegated : Derives 12 (scan ('-' :: step.toList)) (.unary .minus (.name step.toList)) := by
    rw [hstep.scan_negated]
    exact (((Derives.name step.toList).looser (Nat.zero_le 1)).unary .minus).looser (by decide)
  rw [toList_computedHead]
  exact Head.reads_chars hname (.inl rfl) (hfirst.derives.looser (by decide))
    (derives_choice hascends ((hcompare (o := .lessEqual) rfl hname hlast).looser (by decide))
      ((hcompare (o := .greaterEqual) rfl hname hlast).looser (by decide)))
    (derives_choice hascends (hstep.derives.looser (by decide)) hnegated)

/-! ## What the heads do -/

/-- A body that leaves variables alone. -/
def Leaves (body : Environment → Environment) (xs : List (List Char)) : Prop :=
  ∀ env, ∀ x ∈ xs, body env x = env x

/-- Literal bounds: the test and the move have the direction built in. -/
theorem literalLoop_counts {x : List Char} {body : Environment → Environment}
    (hbody : Leaves body [x]) (first last step : Int) :
    (literalLoop x first last step).Counts body (fun _ => True) (direction first last) last
      (max step.natAbs 1) where
  sign_eq := direction_cases first last
  test env _ := by
    by_cases h : first ≤ last <;>
      simp [literalLoop, direction, h, eval, eval_integer, Operator.value?]
  move env _ := by
    by_cases h : first ≤ last <;>
      simp [literalLoop, direction, h, eval, Operator.value?]
    omega
  body env _ := ⟨trivial, hbody env x List.mem_cons_self⟩
  update _ _ _ := trivial

/-- The temporaries hold the bounds and the step of a loop. -/
structure HoldsBounds (f t s : List Char) (first last : Int) (stride : Nat) (env : Environment) :
    Prop where
  first : env f = first
  last : env t = last
  stride : env s = stride

/-- Computed bounds: the test and the move choose the direction. -/
theorem computedLoop_counts {x f t s : List Char} {body : Environment → Environment}
    (hx : x ∉ [f, t, s]) (hbody : Leaves body [x, f, t, s]) (first last : Int) (stride : Nat) :
    (computedLoop x f t s).Counts body (HoldsBounds f t s first last stride) (direction first last)
      last stride where
  sign_eq := direction_cases first last
  test env henv := by
    by_cases h : first ≤ last <;>
      simp [computedLoop, direction, h, eval, Operator.value?, henv.first, henv.last]
  move env henv := by
    by_cases h : first ≤ last <;>
      simp [computedLoop, direction, h, eval, Operator.value?, henv.first, henv.last, henv.stride]
  body env henv := by
    have hleft := hbody env
    simp only [List.forall_mem_cons] at hleft
    obtain ⟨hx, hf, ht, hs, -⟩ := hleft
    exact ⟨⟨hf.trans henv.first, ht.trans henv.last, hs.trans henv.stride⟩, hx⟩
  update env v henv := by
    simp only [List.mem_cons, List.not_mem_nil, or_false, not_or] at hx
    obtain ⟨hf, ht, hs⟩ := hx
    show HoldsBounds f t s first last stride (Function.update env x v)
    exact ⟨(Function.update_of_ne (Ne.symm hf) v env).trans henv.first,
      (Function.update_of_ne (Ne.symm ht) v env).trans henv.last,
      (Function.update_of_ne (Ne.symm hs) v env).trans henv.stride⟩

/-! ## Loops of blocks -/

/-- The declarations of the temporaries of a loop whose bounds are computed, of which the first one is
number `n`. -/
def declarations (start finish step : String) (n : Nat) : String :=
  "int " ++ temporary "from" n ++ " = " ++ start ++ ";\nint " ++ temporary "to" (n + 1) ++ " = " ++
    finish ++ ";\nint " ++ temporary "by" (n + 2) ++ " = abs(" ++ step ++ ");\n"

/-- Code makes a variable count from the value of `start` to that of `finish`, in steps of the magnitude
of `step` or at least one, around every body that leaves the variables of the head alone: as it is if
these are literals, and otherwise behind the declarations of temporaries and unless the step is zero. -/
def CountsBetween (x : List Char) (start finish step : String) (n : Nat) (code : String) : Prop :=
  match Text.intLiteral? start, Text.intLiteral? finish, Text.intLiteral? step with
  | some first, some last, some stride => ∀ body env values, Leaves body [x] →
    (Loops code body env values ↔ values = counted first last (max stride.natAbs 1))
  | _, _, _ => ∃ head, code = declarations start finish step n ++ head ∧
    ∀ f t s, f = (temporary "from" n).toList → t = (temporary "to" (n + 1)).toList →
      s = (temporary "by" (n + 2)).toList → x ∉ [f, t, s] →
      ∀ first last stride : Int, ∀ body env values, Leaves body [x, f, t, s] →
        HoldsBounds f t s first last stride.natAbs env →
        (Loops head body env values ↔
          stride ≠ 0 ∧ values = counted first last (max stride.natAbs 1))

theorem literalHead_counts {name : String} (hname : IsName name.toList) (first last : Int) {step : Int}
    (hstep : step ≠ Text.least) {body : Environment → Environment} (hbody : Leaves body [name.toList]) (env : Environment)
    (values : List Int) : Loops (literalHead name first last step) body env values ↔
      values = counted first last (max step.natAbs 1) := by
  rw [loops_iff (reads_literalHead hname first last hstep),
    (literalLoop_counts hbody first last step).takes_iff (eval_integer env first) trivial rfl]
  exact and_iff_right (by omega)

theorem computedHead_counts {name f t s : String} (hname : IsName name.toList)
    (hf : IsName f.toList) (ht : IsName t.toList) (hs : IsName s.toList)
    (hx : name.toList ∉ [f.toList, t.toList, s.toList]) {first last step : Int}
    {body : Environment → Environment}
    (hbody : Leaves body [name.toList, f.toList, t.toList, s.toList]) {env : Environment}
    (henv : HoldsBounds f.toList t.toList s.toList first last step.natAbs env) (values : List Int) :
    Loops (computedHead name f t s) body env values ↔
      step ≠ 0 ∧ values = counted first last (max step.natAbs 1) := by
  rw [loops_iff (reads_computedHead hname hf ht hs),
    (computedLoop_counts hx hbody first last step.natAbs).takes_iff (congrArg some henv.first) henv rfl,
    Int.natAbs_pos]
  refine and_congr_right fun hstep => ?_
  rw [max_eq_left (Int.natAbs_pos.2 hstep)]

theorem run_freshName (p : Project) (stem : String) (s : Emission) :
    p.run (Recipe.freshName stem) s =
      (temporary stem s.names, { s with names := s.names + 1 }) := rfl

theorem names_run_ensure (p : Project) (part : Section) (key text : String) (s : Emission) :
    (p.run (Recipe.ensure part key text) s).2.names = s.names := rfl

theorem run_temporaryHead (p : Project) (name start finish step : String) (s : Emission) :
    (p.run (temporaryHead name start finish step) s).1 =
      declarations start finish step s.names ++ computedHead name (temporary "from" s.names)
        (temporary "to" (s.names + 1)) (temporary "by" (s.names + 2)) := by
  unfold temporaryHead declarations
  simp only [p.run_bind, p.run_pure, run_freshName, names_run_ensure]

theorem countingHead_counts (p : Project) {name : String} (hname : IsName name.toList)
    (start finish : String) {step : String} (hleast : Text.intLiteral? step ≠ some Text.least)
    (s : Emission) :
    CountsBetween name.toList start finish step s.names
      (p.run (countingHead name start finish step) s).1 := by
  unfold CountsBetween
  split
  · next first last stride hstart hfinish hstep =>
    have hhead : countingHead name start finish step = do
        Recipe.overflowUnless (stride != Text.least)
        return literalHead name first last stride := by
      rw [countingHead, hstart, hfinish, hstep]
    rw [hhead, p.run_bind, p.run_pure]
    intro body env values hbody
    have hstride : stride ≠ Text.least := by
      rintro rfl
      exact hleast hstep
    exact literalHead_counts hname first last hstride hbody env values
  · next hcomputed =>
    have hhead : countingHead name start finish step = temporaryHead name start finish step := by
      unfold countingHead
      split
      · next hstart hfinish hstep => exact (hcomputed _ _ _ hstart hfinish hstep).elim
      · rfl
    rw [hhead]
    refine ⟨_, run_temporaryHead p name start finish step s, ?_⟩
    intro f t s' hf ht hs hx first last stride body env values hbody henv
    subst hf ht hs
    have hfrom := @isName_temporary "from" (by decide) s.names
    have hto := @isName_temporary "to" (by decide) (s.names + 1)
    have hby := @isName_temporary "by" (by decide) (s.names + 2)
    exact computedHead_counts hname hfrom hto hby hx hbody henv values

/-- The head of a counting loop counts with the loop's variable, from and to what its sockets yield,
unless its step is the least number of 64 bits. -/
theorem countingLoop_counts (p : Project) (b : Block) (s : Emission) :
    let name := Identifier.ofName (p.field b "VAR")
    let start := p.run (value p b "START" .assignment)
      (p.run (Recipe.perform (.setType name .int)) s).2
    let finish := p.run (value p b "END" .assignment) start.2
    let step := p.run (value p b "STEP" .anything) finish.2
    let head := p.run (countingHead name start.1 finish.1 step.1) step.2
    Text.intLiteral? step.1 ≠ some Text.least →
    (p.run (countingLoop p b) s).1 =
        head.1 ++ " \x7b\n" ++ (p.run (body p b "DO") head.2).1 ++ "\x7d\n" ∧
      CountsBetween name.toList start.1 finish.1 step.1 step.2.names head.1 := by
  intro name start finish step head hleast
  refine ⟨?_, countingHead_counts p (isName_ofName _) start.1 finish.1 hleast step.2⟩
  rw [countingLoop, p.run_bind, p.run_bind, p.run_bind, p.run_bind, p.run_bind, loop, p.run_bind,
    p.run_pure]

/-- A loop from a variable to ten in steps of zero. -/
def motionless : Project where
  workspace :=
    { blocks := #[
        { id := "loop", type := "controls_for", values := ⟨[("START", 1), ("STEP", 2)]⟩ },
        { id := "start", type := "variables_get", fields := ⟨[("VAR", "x")]⟩ },
        { id := "step", type := "math_number", fields := ⟨[("NUM", "0")]⟩ }]
      top := [0]
      index := [0, 1, 2] }

/-- Started at one and around a body that does nothing, the loop does not end. -/
theorem countingLoop_counts_motionless : ∃ b env, motionless.workspace.block? 0 = some b ∧
    (motionless.run (countingLoop motionless b) .empty).1 =
      declarations "x" "10" "0" 0 ++ computedHead "i" "_from0" "_to1" "_by2" ++ " \x7b\n\x7d\n" ∧
    HoldsBounds "_from0".toList "_to1".toList "_by2".toList 1 10 0 env ∧
    ∀ values, ¬Loops (computedHead "i" "_from0" "_to1" "_by2") id env values := by
  have hcounts : CountsBetween "i".toList "x" "10" "0" 0
      (declarations "x" "10" "0" 0 ++ computedHead "i" "_from0" "_to1" "_by2") := by
    convert (countingLoop_counts motionless
      { id := "loop", type := "controls_for", values := ⟨[("START", 1), ("STEP", 2)]⟩ } .empty
      (by decide +kernel)).2 using 1 <;> decide +kernel
  obtain ⟨head, hhead, hcomputed⟩ := hcounts
  obtain rfl := (String.append_right_inj _).1 hhead
  have hbounds : HoldsBounds "_from0".toList "_to1".toList "_by2".toList 1 10 0 fun x =>
      if x = "_from0".toList then 1 else if x = "_to1".toList then 10 else 0 := by
    constructor <;> decide
  refine ⟨_, _, rfl, by decide +kernel, hbounds, fun values hloops => ?_⟩
  exact ((hcomputed _ _ _ rfl rfl rfl (by decide) 1 10 0 id _ values (fun _ _ _ => rfl) hbounds).1
    hloops).1 rfl

end Emit

end BlockCompiler
