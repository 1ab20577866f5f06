import BlockCompiler.Proofs.Decimal.Positional
import BlockCompiler.Proofs.Emit.Catalog
import BlockCompiler.Proofs.Expression.Writing
import Mathlib.Data.List.TakeWhile

set_option autoImplicit false

/-! # Subscripts

An array block keeps an index inside the array if it reads the text of the index as a literal. A text
that it does not read never passes for a number between the brackets: all expressions are such that
either a literal is read, or something other than a closing bracket follows the digits that they start
with. So a subscript that is written in decimal digits has been kept inside the array. -/

namespace BlockCompiler

/-! ## Texts between brackets -/

namespace Text

/-- Behind the numeral that a text starts with stands some other character, and no closing bracket. -/
def IsApart (text : String) : Prop :=
  (text.toList.dropWhile isNumeral).head?.any (· != ']') = true

instance (text : String) : Decidable (IsApart text) := inferInstanceAs (Decidable (_ = true))

/-- A text does not pass for a number in front of a bracket unless it is read as a literal. -/
def IsIndex (text : String) : Prop :=
  IsApart text ∨ (text.toList.all isNumeral = true ∧ (intLiteral? text).isSome = true)

instance (text : String) : Decidable (IsIndex text) := inferInstanceAs (Decidable (_ ∨ _ ∧ _))

theorem IsApart.append {text : String} (h : IsApart text) (rest : String) :
    IsApart (text ++ rest) := by
  unfold IsApart at *
  rw [String.toList_append, List.dropWhile_append]
  cases hrest : text.toList.dropWhile isNumeral with
  | nil => rw [hrest] at h; cases h
  | cons c cs => rwa [hrest] at h

theorem isApart_of_head? {text : String} {c : Char} (h : text.toList.head? = some c)
    (hnumeral : isNumeral c = false) (hc : c ≠ ']') : IsApart text := by
  unfold IsApart
  cases hchars : text.toList with
  | nil => rw [hchars] at h; cases h
  | cons d cs =>
    rw [hchars] at h
    obtain rfl : d = c := Option.some_inj.1 h
    rw [List.dropWhile_cons_of_neg (by simp [hnumeral])]
    exact bne_iff_ne.2 hc

/-- Digits around a point. -/
theorem isApart_of_point {text : String} (hpoint : '.' ∈ text.toList)
    (hchars : ∀ c ∈ text.toList, isNumeral c = true ∨ c = '.') : IsApart text := by
  unfold IsApart
  cases hrest : text.toList.dropWhile isNumeral with
  | nil => exact absurd (List.dropWhile_eq_nil_iff.1 hrest '.' hpoint) (by decide)
  | cons c cs =>
    have hmem : c ∈ text.toList :=
      (List.dropWhile_sublist isNumeral).subset (hrest ▸ List.mem_cons_self)
    have hnot : isNumeral c = false := by
      have hhead := List.head?_dropWhile_not isNumeral text.toList
      rwa [hrest] at hhead
    obtain rfl : c = '.' := (hchars c hmem).resolve_left (Bool.eq_false_iff.1 hnot)
    rfl

/-- An index is set apart by what stands behind it. -/
theorem IsIndex.isApart_append {text rest : String} (h : IsIndex text) (hrest : IsApart rest) :
    IsApart (text ++ rest) := by
  rcases h with h | ⟨hall, -⟩
  · exact h.append rest
  · unfold IsApart
    rwa [String.toList_append, List.dropWhile_append_of_pos (List.all_eq_true.1 hall)]

/-- An index that passes for a number in front of a bracket is this number, and is read as one. -/
theorem IsIndex.eq_of_bracket {index : String} (h : IsIndex index) {k : Int} {rest rest' : List Char}
    (heq : index.toList ++ ']' :: rest = (toString k).toList ++ ']' :: rest') :
    index = toString k ∧ (intLiteral? index).isSome = true := by
  have hk : ∀ c ∈ (toString k).toList, isNumeral c = true := fun c => isNumeral_of_mem_toString
  rcases h with h | ⟨hall, hread⟩
  · -- behind the digits of the number stands a bracket, and behind those of the index none
    have hdrop : (index.toList ++ ']' :: rest).dropWhile isNumeral = ']' :: rest' := by
      rw [heq, List.dropWhile_append_of_pos hk]
      rfl
    rw [List.dropWhile_append] at hdrop
    unfold IsApart at h
    cases hrest : index.toList.dropWhile isNumeral with
    | nil => rw [hrest] at h; cases h
    | cons c cs =>
      rw [hrest] at h hdrop
      obtain ⟨rfl, -⟩ := List.cons.inj hdrop
      cases h
  · have hchars := eq_of_numerals (List.all_eq_true.1 hall) hk (by decide) heq
    exact ⟨String.toList_injective hchars, hread⟩

theorem isIndex_toString {n : Int} (h : least ≤ n ∧ n ≤ greatest) : IsIndex (toString n) := by
  refine .inr ⟨List.all_eq_true.2 fun c => isNumeral_of_mem_toString, ?_⟩
  rw [intLiteral?_toString h.1 h.2]
  rfl

end Text

open Text

/-- A fragment's text is an index if the fragment is an expression. -/
def Fragment.IsIndex : Fragment → Prop
  | .statement _ => True
  | .expression found => Text.IsIndex found.text

theorem Operand.isIndex_within {o : Operand} (h : IsIndex o.text) (outer : Precedence) :
    IsIndex (o.within outer) := by
  have hopening : IsApart "(" := by decide
  unfold Operand.within Precedence.wrap
  split
  · exact .inl ((hopening.append _).append _)
  · exact h

theorem Comment.head?_beforeValue (comments value : String) :
    (beforeValue comments value).toList.head? = some '/' := by
  unfold beforeValue
  rw [String.append_assoc, String.append_assoc, String.toList_append]
  rfl

theorem Comment.isApart_beforeValue (comments value : String) :
    IsApart (beforeValue comments value) :=
  isApart_of_head? (head?_beforeValue comments value) rfl (by decide)

theorem Identifier.isApart_ofName (name : String) : IsApart (ofName name) := by
  obtain ⟨hword, c, rest, hname, hdigit⟩ := Expression.isName_ofName name
  have hc : isWordChar c = true := List.all_eq_true.1 hword c (hname ▸ List.mem_cons_self)
  refine isApart_of_head? (c := c) (by rw [hname]; rfl) ?_ ?_
  · rw [isNumeral, hdigit, Bool.false_or, beq_eq_false_iff_ne]
    rintro rfl
    exact absurd hc (by decide)
  · rintro rfl
    exact absurd hc (by decide)

/-! ## Outcomes -/

namespace Recipe

variable {α β : Type} {made : Fragment → Prop} {yields : α → Prop} {yields' : β → Prop}

/-- All outcomes are as told, given what is known of the code of blocks. -/
def Returns (made : Fragment → Prop) (yields : α → Prop) (r : Recipe α) : Prop :=
  ∀ es a, Path r es a → (∀ id fragment, .made id fragment ∈ es → made fragment) → yields a

theorem Returns.any (r : Recipe α) : r.Returns made fun _ => True := fun _ _ _ _ => trivial

theorem Returns.pure {a : α} (h : yields a) : (Pure.pure a : Recipe α).Returns made yields := by
  intro es b hpath _
  obtain ⟨-, rfl⟩ := hpath.of_pure
  exact h

theorem Returns.bind {r : Recipe α} {f : α → Recipe β} (hr : r.Returns made yields)
    (hf : ∀ a, yields a → (f a).Returns made yields') : (r >>= f).Returns made yields' := by
  intro es b hpath hmade
  obtain ⟨es₁, a, es₂, rfl, h₁, h₂⟩ := hpath.of_bind
  have ha := hr es₁ a h₁ fun id fragment hmem => hmade id fragment (List.mem_append_left _ hmem)
  exact hf a ha es₂ b h₂ fun id fragment hmem => hmade id fragment (List.mem_append_right _ hmem)

theorem Returns.mono {r : Recipe α} {weaker : α → Prop} (h : r.Returns made yields)
    (hyields : ∀ a, yields a → weaker a) : r.Returns made weaker :=
  fun es a hpath hmade => hyields a (h es a hpath hmade)

theorem Returns.code (id : BlockId) : (Recipe.code id).Returns made made := by
  intro es fragment hpath hmade
  rw [hpath.of_code] at hmade
  exact hmade id fragment List.mem_cons_self

theorem Returns.freshName (stem : String) :
    (Recipe.freshName stem).Returns made fun name => ∃ n : Nat, name = "_" ++ stem ++ toString n := by
  intro es name hpath _
  cases hpath with
  | fresh n hpath =>
    cases hpath
    exact ⟨n, rfl⟩

/-- What holds of no text, of each text and of two in a row holds of texts in a row. -/
theorem Returns.concat {P : String → Prop} (hempty : P "")
    (happend : ∀ text rest, P text → P rest → P (text ++ rest)) {rs : List (Recipe String)}
    (h : ∀ r ∈ rs, r.Returns made P) : (Recipe.concat rs).Returns made P := by
  induction rs with
  | nil => exact .pure hempty
  | cons r rs ih =>
    refine (h r List.mem_cons_self).bind fun first hfirst => ?_
    refine (ih fun r' hr' => h r' (List.mem_cons_of_mem r hr')).bind fun others hothers => ?_
    exact .pure (happend first others hfirst hothers)

/-- The comment of a diagnostic stands for the code. -/
theorem Returns.diagnose (severity : Severity) (b : Block) (message : String) :
    (Recipe.diagnose severity b message).Returns made fun line =>
      line = (Diagnostic.mk severity b.id b.type message).comment := by
  intro es line hpath _
  obtain ⟨d, rfl, -, rfl⟩ := hpath.of_diagnose
  rfl

end Recipe

namespace Emit

open Recipe

variable (p : Project) (b : Block)

/-! ## Values in sockets -/

/-- The texts that stand for the empty sockets of a kind. -/
def defaults (kind : Kind) (board : Board) : List String :=
  (kind.definition board).inputs.filterMap fun input =>
    match input.kind with
    | .value text => some text
    | _ => none

/-- What the tables hold for empty sockets, and zero, tells what stands for any empty socket. -/
theorem socketDefault_of_forall {P : String → Prop} (hzero : P "0")
    (htable : ∀ kind ∈ Kind.all, ∀ text ∈ defaults kind .standard, P text) (socket : String) :
    P (p.socketDefault b socket) := by
  unfold Project.socketDefault
  cases hdefault : (p.definition? b).bind (·.valueDefault? socket) with
  | none => exact hzero
  | some text =>
    obtain ⟨definition, hdefinition, hvalue⟩ := Option.bind_eq_some_iff.1 hdefault
    obtain ⟨kind, -, rfl⟩ := Option.map_eq_some_iff.1 hdefinition
    obtain ⟨input, hinput, hkind⟩ := Option.bind_eq_some_iff.1 hvalue
    have hmem : text ∈ defaults kind p.board :=
      List.mem_filterMap.2 ⟨input, List.mem_of_find?_eq_some hinput, hkind⟩
    have hboard : defaults kind p.board = defaults kind .standard := by cases kind <;> rfl
    exact htable kind (Kind.mem_all kind) text (hboard ▸ hmem)

/-- What stands for an empty socket is an index. -/
theorem isIndex_socketDefault (socket : String) : IsIndex (p.socketDefault b socket) :=
  socketDefault_of_forall p b (by decide) (by decide +kernel) socket

theorem operand_isIndex (socket : String) :
    (operand p b socket).Returns Fragment.IsIndex fun found => ∀ o ∈ found, IsIndex o.text := by
  have hcomment : ∀ comment, ∀ o ∈ some (Operand.atom
      (Comment.beforeValue comment (p.socketDefault b socket))), IsIndex o.text := by
    rintro comment _ ⟨⟩
    exact .inl (Comment.isApart_beforeValue _ _)
  cases hplugged : p.plugged? b socket with
  | none =>
    rw [operand_of_empty hplugged]
    exact .pure nofun
  | some plugged =>
    obtain ⟨id, child⟩ := plugged
    rw [operand_of_plugged hplugged]
    refine (Returns.code id).bind fun fragment hfragment => ?_
    cases fragment with
    | expression found =>
      refine .pure ?_
      rintro _ ⟨⟩
      exact hfragment
    | statement text =>
      dsimp only
      split
      · exact .pure (hcomment _)
      · exact (Returns.any _).bind fun comment _ => .pure (hcomment comment)

theorem value?_isIndex (socket : String) (outer : Precedence) :
    (value? p b socket outer).Returns Fragment.IsIndex fun found => ∀ text ∈ found, IsIndex text := by
  refine (operand_isIndex p b socket).bind fun found hfound => .pure ?_
  intro text htext
  obtain ⟨o, ho, rfl⟩ := Option.map_eq_some_iff.1 htext
  exact Operand.isIndex_within (hfound o ho) outer

theorem value_isIndex (socket : String) (outer : Precedence) :
    (value p b socket outer).Returns Fragment.IsIndex IsIndex := by
  refine (value?_isIndex p b socket outer).bind fun found hfound => .pure ?_
  cases found with
  | some text => exact hfound text rfl
  | none => exact isIndex_socketDefault p b socket

/-! ## Numbers -/

theorem isIndex_floatLiteral (x : Decimal.Binary64) : IsIndex (floatLiteral x) := by
  rcases floatLiteral_chars x with hzero | ⟨hpoint, hchars⟩
  · rw [hzero]
    decide
  · exact .inl (isApart_of_point hpoint hchars)

theorem isApart_of_isHexLiteral {cs : List Char} (h : isHexLiteral cs = true) :
    IsApart (String.ofList cs) := by
  unfold IsApart
  rw [String.toList_ofList]
  unfold isHexLiteral at h
  split at h
  · rfl
  · rfl
  · cases h

theorem isIndex_numberLiteral (text : String) : IsIndex (numberLiteral text) := by
  have hzero : IsIndex "0" := by decide
  unfold numberLiteral
  dsimp only
  split
  · next n hn => exact isIndex_toString (range_of_signed? hn)
  · split
    · exact isIndex_floatLiteral _
    · split
      · next hhex => exact .inl (isApart_of_isHexLiteral hhex)
      · exact hzero

/-! ## Values -/

/-- The text of the operand that a recipe makes is an index. -/
def MakesIndex (r : Recipe Operand) : Prop := r.Returns Fragment.IsIndex fun o => IsIndex o.text

theorem makesIndex_pure {text : String} (h : IsIndex text) (order : Precedence) :
    MakesIndex (pure ⟨text, order⟩) :=
  Returns.pure h

theorem systemCounter_isIndex : MakesIndex systemCounter := by
  have hcounter : IsIndex "CNT" := by decide
  exact makesIndex_pure hcounter .atomic

theorem number_isIndex : MakesIndex (number p b) := by
  have hliteral := isIndex_numberLiteral (p.field b "NUM")
  exact makesIndex_pure hliteral _

theorem readVariable_isIndex : MakesIndex (readVariable p b) := by
  have hname : IsIndex (variableName p b) := .inl (Identifier.isApart_ofName _)
  exact makesIndex_pure hname .atomic

theorem binary_isIndex (sign : String) (order : Precedence) : MakesIndex (binary p b sign order) := by
  have hspace : IsApart " " := by decide
  refine (value_isIndex p b "A" order).bind fun left hleft => ?_
  refine (Returns.any _).bind fun right _ => .pure (.inl ?_)
  exact (((hleft.isApart_append hspace).append _).append _).append _

theorem power_isIndex : MakesIndex (power p b) := by
  have hstart : IsApart "pow(" := by decide
  refine (Returns.any _).bind fun base _ => (Returns.any _).bind fun exponent _ => .pure (.inl ?_)
  exact (((hstart.append _).append _).append _).append _

theorem arithmetic_isIndex : MakesIndex (arithmetic p b) := by
  unfold arithmetic
  split
  · exact binary_isIndex p b _ _
  · exact binary_isIndex p b _ _
  · exact binary_isIndex p b _ _
  · exact binary_isIndex p b _ _
  · exact power_isIndex p b
  · exact binary_isIndex p b _ _

theorem limit_isIndex : MakesIndex (limit p b) := by
  have hspace : IsApart " " := by decide
  refine (value_isIndex p b "A" .relational).bind fun left hleft => ?_
  refine (Returns.any _).bind fun right _ => .pure (.inl ?_)
  exact (((((((hleft.isApart_append hspace).append _).append _).append _).append _).append _).append
    _).append _

theorem random_isIndex : MakesIndex (random p b) := by
  have hstart : IsApart "(" := by decide
  refine (Returns.any _).bind fun _ _ => ?_
  refine (Returns.any _).bind fun low _ => (Returns.any _).bind fun high _ => .pure (.inl ?_)
  exact (((((hstart.append _).append _).append _).append _).append _).append _

theorem compare_isIndex : MakesIndex (compare p b) := by
  unfold compare
  split <;> exact binary_isIndex p b _ _

theorem logic_isIndex : MakesIndex (logic p b) := by
  unfold logic
  split <;> exact binary_isIndex p b _ _

theorem boolean_isIndex : MakesIndex (boolean p b) := by
  have hzero : IsIndex "0" := by decide
  have hone : IsIndex "1" := by decide
  unfold boolean
  split
  · exact Returns.pure hzero
  · exact Returns.pure hone

theorem negate_isIndex : MakesIndex (negate p b) := by
  have hstart : IsApart "!" := by decide
  exact (Returns.any _).bind fun operand _ => .pure (.inl (hstart.append _))

theorem text_isIndex : MakesIndex (text p b) :=
  .pure (.inl (isApart_of_head? (c := '"') (by simp [Operand.atom, quote]) rfl (by decide)))

theorem arrayGet_isIndex : MakesIndex (arrayGet p b) := by
  unfold arrayGet
  dsimp only
  split
  · exact (Returns.any _).bind fun line _ => .pure (.inl (Comment.isApart_beforeValue _ _))
  · refine (Returns.any _).bind fun index _ => .pure (.inl ?_)
    exact (((Identifier.isApart_ofName _).append _).append _).append _

theorem checkPin_isIndex : MakesIndex (checkPin p b) := by
  have hstart : IsApart "input(" := by decide
  exact (Returns.any _).bind fun number _ => .pure (.inl ((hstart.append _).append _))

theorem fromScribbler_isIndex {code : Recipe Operand} (hcode : MakesIndex code) :
    MakesIndex (fromScribbler p b code) := by
  refine (Returns.any _).bind fun found _ => ?_
  cases found with
  | some line => exact .pure (.inl (Comment.isApart_beforeValue _ _))
  | none => exact hcode

theorem scribblerLine_isIndex : MakesIndex (scribblerLine p b) := by
  have hstart : IsApart "s3_simpleLine(" := by decide
  refine fromScribbler_isIndex p b (.pure (.inl ?_))
  exact (((((hstart.append _).append _).append _).append _).append _).append _

theorem scribblerObstacle_isIndex : MakesIndex (scribblerObstacle p b) := by
  have hstart : IsApart "s3_simpleObstacle(" := by decide
  exact fromScribbler_isIndex p b (.pure (.inl ((((hstart.append _).append _).append _).append _)))

theorem isIndex_of_value {code : Recipe Operand} (h : MakesIndex code) :
    (Emitter.value code).fragment.Returns Fragment.IsIndex Fragment.IsIndex :=
  h.bind fun _ ho => .pure ho

/-- The code of a block is an index if it is an expression, as long as the code that it is made of
is. -/
theorem recipe_isIndex (id : BlockId) :
    (recipe p id b).Returns Fragment.IsIndex Fragment.IsIndex := by
  have hstatement : ∀ code, (Emitter.statement code).fragment.Returns Fragment.IsIndex
      Fragment.IsIndex := fun _ => (Returns.any _).bind fun _ _ => .pure trivial
  unfold recipe
  split
  · next kind _ =>
    cases kind with
    | systemCounter => exact isIndex_of_value systemCounter_isIndex
    | number => exact isIndex_of_value (number_isIndex p b)
    | arithmetic => exact isIndex_of_value (arithmetic_isIndex p b)
    | limit => exact isIndex_of_value (limit_isIndex p b)
    | random => exact isIndex_of_value (random_isIndex p b)
    | boolean => exact isIndex_of_value (boolean_isIndex p b)
    | compare => exact isIndex_of_value (compare_isIndex p b)
    | logic => exact isIndex_of_value (logic_isIndex p b)
    | negate => exact isIndex_of_value (negate_isIndex p b)
    | text => exact isIndex_of_value (text_isIndex p b)
    | readVariable => exact isIndex_of_value (readVariable_isIndex p b)
    | arrayGet => exact isIndex_of_value (arrayGet_isIndex p b)
    | checkPin => exact isIndex_of_value (checkPin_isIndex p b)
    | checkPinInput => exact isIndex_of_value (checkPin_isIndex p b)
    | scribblerLine => exact isIndex_of_value (scribblerLine_isIndex p b)
    | scribblerObstacle => exact isIndex_of_value (scribblerObstacle_isIndex p b)
    | _ => exact hstatement _
  · exact hstatement _

end Emit

end BlockCompiler
