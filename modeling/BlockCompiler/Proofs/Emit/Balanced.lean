import BlockCompiler.Proofs.Emit.Subscript
import BlockCompiler.Proofs.Text.Balanced

set_option autoImplicit false

/-! # Balanced code

The blocks that compute and control yield balanced code, as long as the code that it is made of is:
statements are balanced, and a value is a balanced text within a line. A recipe that opens a literal,
a comment, a parenthesis or a brace closes it, whatever stands in its sockets. -/

namespace BlockCompiler

open Text

/-- Statements are balanced, and an expression is besides on one line. -/
def Fragment.IsBalanced : Fragment → Prop
  | .statement text => Text.IsBalanced text
  | .expression found => IsInline found.text

theorem Text.IsInline.not_mem_return {text : String} (h : IsInline text) : '\r' ∉ text.toList :=
  Scanner.not_mem_return h.balanced

namespace Emit

open Recipe Scanner

variable (p : Project) (b : Block)

/-- Made of balanced code, the text of a recipe is balanced. -/
def MakesBalanced (r : Recipe String) : Prop := r.Returns Fragment.IsBalanced Text.IsBalanced

/-- Made of balanced code, the text of a recipe is balanced and on one line. -/
def MakesInline (r : Recipe String) : Prop := r.Returns Fragment.IsBalanced IsInline

/-- Made of balanced code, the operand of a recipe is balanced and on one line. -/
def MakesOperand (r : Recipe Operand) : Prop :=
  r.Returns Fragment.IsBalanced fun o => IsInline o.text

theorem makesOperand_pure {text : String} (h : IsInline text) (order : Precedence) :
    MakesOperand (pure ⟨text, order⟩) :=
  Returns.pure h

/-! ## Values -/

theorem diagnose_isBalanced (severity : Severity) (about : Block) {message : String}
    (hline : '\n' ∉ message.toList) (hreturn : '\r' ∉ message.toList) :
    MakesBalanced (Recipe.diagnose severity about message) := by
  refine (Returns.diagnose severity about message).mono ?_
  rintro _ rfl
  exact Diagnostic.isBalanced_comment hline hreturn

theorem isInline_socketDefault (socket : String) : IsInline (p.socketDefault b socket) :=
  socketDefault_of_forall p b (by decide) (by decide +kernel) socket

theorem operand_isInline (socket : String) :
    (operand p b socket).Returns Fragment.IsBalanced fun found => ∀ o ∈ found, IsInline o.text := by
  have hcomment : ∀ comment, Text.IsBalanced comment → ∀ o ∈ some (Operand.atom
      (Comment.beforeValue comment (p.socketDefault b socket))), IsInline o.text := by
    rintro comment hcomment _ ⟨⟩
    exact Comment.isInline_beforeValue (not_mem_return hcomment) (isInline_socketDefault p b socket)
  cases hplugged : p.plugged? b socket with
  | none =>
    rw [operand_of_empty hplugged]
    exact .pure nofun
  | some plugged =>
    obtain ⟨id, child⟩ := plugged
    rw [operand_of_plugged hplugged]
    refine (Returns.code id).bind fun fragment hfragment => ?_
    cases fragment with
    | expression found =>
      refine .pure ?_
      rintro _ ⟨⟩
      exact hfragment
    | statement text =>
      dsimp only
      split
      · exact .pure (hcomment text hfragment)
      · refine (diagnose_isBalanced .warning child ?_ ?_).bind fun comment h => .pure (hcomment comment h)
        · decide
        · decide

theorem value_isInline (socket : String) (outer : Precedence) :
    MakesInline (value p b socket outer) := by
  have hvalue : (value? p b socket outer).Returns Fragment.IsBalanced fun found =>
      ∀ text ∈ found, IsInline text := by
    refine (operand_isInline p b socket).bind fun found hfound => .pure ?_
    intro text htext
    obtain ⟨o, ho, rfl⟩ := Option.map_eq_some_iff.1 htext
    exact Operand.isInline_within (hfound o ho) outer
  refine hvalue.bind fun found hfound => .pure ?_
  cases found with
  | some text => exact hfound text rfl
  | none => exact isInline_socketDefault p b socket

/-! ## Stacks -/

theorem member_isBalanced (id : BlockId) : MakesBalanced (member p id) := by
  unfold member
  split
  · exact .pure isBalanced_empty
  · split
    · exact .pure isBalanced_empty
    · refine (Returns.code id).bind fun fragment hfragment => ?_
      cases fragment with
      | statement text => exact .pure hfragment
      | expression found => exact .pure isBalanced_empty

theorem chain_isBalanced (head : BlockId) : MakesBalanced (chain p head) := by
  have hend : ∀ repeated, MakesBalanced (chainEnd p repeated) := by
    intro repeated
    unfold chainEnd
    split
    · exact diagnose_isBalanced .warning _ (by decide) (by decide)
    · exact .pure isBalanced_empty
  refine (Returns.concat isBalanced_empty (fun _ _ => IsBalanced.append) ?_).bind
    fun body hbody => (hend _).bind fun close hclose => .pure (hbody.append hclose)
  intro r hr
  obtain ⟨id, -, rfl⟩ := List.mem_map.1 hr
  exact member_isBalanced p id

theorem body_isBalanced (socket : String) : MakesBalanced (body p b socket) := by
  unfold body
  split
  · exact .pure isBalanced_empty
  · refine (chain_isBalanced p _).bind fun text htext => .pure (htext.indent ?_)
    simp [indentation]

/-! ## Control flow -/

theorem pause_isBalanced : MakesBalanced (pause p b) :=
  (value_isInline p b _ _).bind fun _ htime => .pure (htime.balanced.between rfl rfl)

/-- The first branch opens a brace; the others close the one in front and open their own. -/
theorem guarded_spans (n : Nat) : (guarded p b n).Returns Fragment.IsBalanced fun text =>
    Spans ⟨.code, 0, if n = 0 then 0 else 1⟩ text ⟨.code, 0, 1⟩ := by
  refine (value_isInline p b _ _).bind fun condition hcondition => ?_
  refine (body_isBalanced p b _).bind fun stack hstack => .pure ?_
  have hkeyword : Spans ⟨.code, 0, if n = 0 then 0 else 1⟩ (if n = 0 then "if" else "\x7d else if")
      start := by
    split <;> rfl
  have hopen : Spans start " (" ⟨.code, 1, 0⟩ := rfl
  have hclose : Spans ⟨.code, 1, 0⟩ ") \x7b\n" ⟨.code, 0, 1⟩ := rfl
  exact (((hkeyword.append hopen).append hcondition.balanced.spans).append hclose).append hstack.spans

theorem otherwise_spans : (otherwise p b).Returns Fragment.IsBalanced fun text =>
    Spans ⟨.code, 0, 1⟩ text ⟨.code, 0, 1⟩ := by
  have helse : Spans ⟨.code, 0, 1⟩ "\x7d else \x7b\n" ⟨.code, 0, 1⟩ := rfl
  unfold otherwise
  split
  · exact (body_isBalanced p b _).bind fun stack hstack => .pure (helse.append hstack.spans)
  · exact .pure rfl

/-- One condition or more open a brace. -/
theorem guards_spans (count : Nat) : (Recipe.concat ((List.range (count + 1)).map
    (guarded p b))).Returns Fragment.IsBalanced fun text => Spans start text ⟨.code, 0, 1⟩ := by
  have hothers : (Recipe.concat ((List.range count).map fun n => guarded p b (n + 1))).Returns
      Fragment.IsBalanced fun text => Spans ⟨.code, 0, 1⟩ text ⟨.code, 0, 1⟩ := by
    have hnone : Spans ⟨.code, 0, 1⟩ "" ⟨.code, 0, 1⟩ := rfl
    refine Returns.concat hnone (fun _ _ => Spans.append) ?_
    intro r hr
    obtain ⟨n, -, rfl⟩ := List.mem_map.1 hr
    exact guarded_spans p b (n + 1)
  rw [List.range_succ_eq_map, List.map_cons, List.map_map]
  refine (guarded_spans p b 0).bind fun first hfirst => ?_
  exact hothers.bind fun others hothers => .pure (Spans.append hfirst hothers)

theorem branch_isBalanced (hcount : b.mutationCount "elseif" ≠ Block.greatestCount) :
    MakesBalanced (branch p b) := by
  obtain ⟨count, hconditions⟩ :=
    Nat.exists_eq_succ_of_ne_zero (mt (conditionCount_eq_zero_iff b).1 hcount)
  have hclose : Spans ⟨.code, 0, 1⟩ "\x7d\n" start := rfl
  unfold branch
  rw [hconditions]
  refine (Returns.any _).bind fun _ _ => (guards_spans p b count).bind fun branches hbranches => ?_
  exact (otherwise_spans p b).bind fun last hlast => .pure ((hbranches.append hlast).append hclose)

/-- A text that starts with a closing brace closes nothing of its own. -/
theorem not_isBalanced_of_close (rest : String) : ¬Text.IsBalanced ("\x7d" ++ rest) := by
  unfold Text.IsBalanced Spans
  rw [String.toList_append]
  nofun

/-- Without a condition the brace that closes the last branch was never opened. -/
theorem branch_not_isBalanced (hcount : b.mutationCount "elseif" = Block.greatestCount) :
    (branch p b).Returns Fragment.IsBalanced fun text => ¬Text.IsBalanced text := by
  have hlast : (otherwise p b).Returns Fragment.IsBalanced fun last =>
      ∃ rest, last ++ "\x7d\n" = "\x7d" ++ rest := by
    unfold otherwise
    split
    · refine (Returns.any _).bind fun stack _ => .pure ⟨" else \x7b\n" ++ stack ++ "\x7d\n", ?_⟩
      exact String.toList_inj.1 (by simp)
    · exact .pure ⟨"\n", rfl⟩
  unfold branch
  rw [(conditionCount_eq_zero_iff b).2 hcount]
  have hnone : (Recipe.concat ((List.range 0).map (guarded p b))).Returns Fragment.IsBalanced
      fun branches => branches = "" := .pure rfl
  refine (Returns.any _).bind fun _ _ => hnone.bind fun branches hbranches => ?_
  refine hlast.bind fun last hlast => .pure ?_
  obtain ⟨rest, hrest⟩ := hlast
  rw [hbranches, String.empty_append, hrest]
  exact not_isBalanced_of_close rest

/-- A loop is balanced if its head is. -/
theorem loop_isBalanced {head : String} (hhead : Text.IsBalanced head) :
    MakesBalanced (loop p b head) := by
  have hopen : Spans start " \x7b\n" ⟨.code, 0, 1⟩ := rfl
  have hclose : Spans ⟨.code, 0, 1⟩ "\x7d\n" start := rfl
  refine (body_isBalanced p b _).bind fun stack hstack => .pure ?_
  exact ((Spans.append hhead hopen).append hstack.spans).append hclose

theorem isInline_freshName {stem name : String} (hstem : IsInline stem)
    (h : ∃ n : Nat, name = "_" ++ stem ++ toString n) : IsInline name := by
  obtain ⟨n, rfl⟩ := h
  have hfront : IsInline "_" := by decide
  exact (hfront.append hstem).append (isInline_toString n)

theorem isBalanced_timesHead {counter limit : String} (hcounter : Text.IsBalanced counter)
    (hlimit : Text.IsBalanced limit) : Text.IsBalanced (timesHead counter limit) := by
  unfold timesHead
  simp only [String.append_assoc]
  exact Spans.text ⟨.code, 1, 0⟩ rfl <| hcounter.then <| .plain rfl <| hcounter.then <|
    .plain rfl <| hlimit.then <| .plain rfl <| hcounter.then rfl

theorem repeatHead_isBalanced : MakesBalanced (repeatHead p b) := by
  unfold repeatHead
  cases RepeatMode.ofBlock b with
  | forever => exact .pure rfl
  | times =>
    refine (value_isInline p b _ _).bind fun limit hlimit => ?_
    refine (Returns.freshName "n").bind fun counter hcounter => .pure ?_
    exact isBalanced_timesHead (isInline_freshName (by decide) hcounter).balanced hlimit.balanced
  | whileTrue => exact (value_isInline p b _ _).bind fun _ h => .pure (h.balanced.between rfl rfl)
  | untilTrue => exact (value_isInline p b _ _).bind fun _ h => .pure (h.balanced.between rfl rfl)

theorem repeatLoop_isBalanced : MakesBalanced (repeatLoop p b) :=
  (repeatHead_isBalanced p b).bind fun _ hhead => loop_isBalanced p b hhead

theorem isBalanced_literalHead {name : String} (hname : Text.IsBalanced name)
    (first last step : Int) : Text.IsBalanced (literalHead name first last step) := by
  have hnumber : ∀ n : Int, Text.IsBalanced (toString n) := fun n => (isInline_toString n).balanced
  have hstride := hnumber (max (Text.magnitude step) 1)
  unfold literalHead
  split
  next test move heq =>
  have hsigns : Text.IsBalanced test ∧ Text.IsBalanced move := by
    split at heq <;> cases heq <;> exact ⟨rfl, rfl⟩
  simp only [String.append_assoc]
  exact Spans.text ⟨.code, 1, 0⟩ rfl <| hname.then <| .plain rfl <| (hnumber first).then <|
    .plain rfl <| hname.then <| hsigns.1.then <| (hnumber last).then <| .plain rfl <| hname.then <|
    hsigns.2.then <| hstride.then rfl

theorem isBalanced_computedHead {name first last step : String} (hname : Text.IsBalanced name)
    (hfirst : Text.IsBalanced first) (hlast : Text.IsBalanced last) (hstep : Text.IsBalanced step) :
    Text.IsBalanced (computedHead name first last step) := by
  unfold computedHead
  simp only [String.append_assoc]
  exact Spans.text ⟨.code, 1, 0⟩ rfl <| hname.then <| .plain rfl <| hfirst.then <| .plain rfl <|
    hfirst.then <| .plain rfl <| hlast.then <| .plain rfl <| hname.then <| .plain rfl <|
    hlast.then <| .plain rfl <| hname.then <| .plain rfl <| hlast.then <| .plain rfl <|
    hname.then <| .plain rfl <| hfirst.then <| .plain rfl <| hlast.then <| .plain rfl <|
    hstep.then <| .plain rfl <| hstep.then rfl

theorem countingHead_isBalanced {name first last step : String} (hname : Text.IsBalanced name)
    (hfirst : Text.IsBalanced first) (hlast : Text.IsBalanced last) (hstep : Text.IsBalanced step) :
    MakesBalanced (countingHead name first last step) := by
  unfold countingHead
  split
  · exact (Returns.any _).bind fun _ _ => .pure (isBalanced_literalHead hname _ _ _)
  · refine (Returns.any _).bind fun _ _ => ?_
    refine (Returns.freshName "from").bind fun f hf => (Returns.freshName "to").bind fun t ht => ?_
    refine (Returns.freshName "by").bind fun s hs => .pure ?_
    have hf := (isInline_freshName (by decide) hf).balanced
    have ht := (isInline_freshName (by decide) ht).balanced
    have hs := (isInline_freshName (by decide) hs).balanced
    have hhead := isBalanced_computedHead hname hf ht hs
    have hline : Text.IsBalanced ";\nint " := rfl
    simp only [String.append_assoc]
    exact Spans.plain rfl <| hf.then <| .plain rfl <| hfirst.then <| hline.then <| ht.then <|
      .plain rfl <| hlast.then <| hline.then <| hs.then <| .text ⟨.code, 1, 0⟩ rfl <| hstep.then <|
      .text start rfl hhead

theorem countingLoop_isBalanced : MakesBalanced (countingLoop p b) := by
  have hname := (Identifier.isInline_ofName (p.field b "VAR")).balanced
  refine (Returns.any _).bind fun _ _ => ?_
  refine (value_isInline p b _ _).bind fun first hfirst => ?_
  refine (value_isInline p b _ _).bind fun last hlast => ?_
  refine (value_isInline p b _ _).bind fun step hstep => ?_
  refine (countingHead_isBalanced hname hfirst.balanced hlast.balanced hstep.balanced).bind ?_
  exact fun head hhead => loop_isBalanced p b hhead

/-! ## Functions -/

theorem undefinedWarning_isBalanced (name : String) :
    MakesBalanced (undefinedWarning b (Identifier.ofName name)) := by
  have hname := Identifier.isInline_ofName name
  refine diagnose_isBalanced .warning b ?_ ?_
  · simp [hname.unbroken]
  · simp [hname.not_mem_return]

theorem procedure_isBalanced : MakesBalanced (procedure p b) := by
  have hname := Identifier.isInline_ofName (p.field b "NAME")
  refine (Returns.any _).bind fun stack _ => (Returns.any _).bind fun _ _ => ?_
  refine (Returns.any _).bind fun isNew _ => ?_
  split
  · exact .pure isBalanced_empty
  · refine diagnose_isBalanced .warning b ?_ ?_
    · simp [hname.unbroken]
    · simp [hname.not_mem_return]

theorem procedureCall_isBalanced : MakesBalanced (procedureCall p b) := by
  have hname := (Identifier.isInline_ofName ((b.mutation.get? "name").getD (p.field b "NAME"))).balanced
  have hcall : Text.IsBalanced "();\n" := rfl
  unfold procedureCall
  dsimp only
  split
  · exact .pure (hname.append hcall)
  · exact undefinedWarning_isBalanced b _

theorem newCog_isBalanced : MakesBalanced (newCog p b) := by
  unfold newCog
  split
  · exact diagnose_isBalanced .warning b (by decide) (by decide)
  · next call _ =>
    have hname := (Identifier.isInline_ofName
      ((call.mutation.get? "name").getD (p.field call "NAME"))).balanced
    have hsize := (isInline_toString (stackSize (p.field b "STACK_SIZE"))).balanced
    dsimp only
    split
    · refine .pure ?_
      simp only [String.append_assoc]
      exact Spans.text ⟨.code, 1, 0⟩ rfl <| hname.then <| .plain rfl <| hsize.then rfl
    · exact undefinedWarning_isBalanced b _

/-! ## Numbers and operators -/

theorem isInline_floatLiteral (x : Decimal.Binary64) : IsInline (floatLiteral x) := by
  rcases floatLiteral_chars x with hzero | ⟨-, hchars⟩
  · rw [hzero]
    decide
  · refine isInline_of_isPlain (List.all_eq_true.2 fun c hc => ?_)
    rcases hchars c hc with hc | rfl
    · exact isPlain_of_isNumeral hc
    · rfl

theorem isPlain_of_isHexLiteral {cs : List Char} (h : isHexLiteral cs = true) :
    cs.all isPlain = true := by
  have hmarked : ∀ mark digits, isPlain mark = true → (signed? 16 digits).isSome = true →
      ('0' :: mark :: digits).all isPlain = true := by
    intro mark digits hmark hdigits
    obtain ⟨n, hn⟩ := Option.isSome_iff_exists.1 hdigits
    rw [List.all_cons, List.all_cons, hmark, isPlain_of_signed? hn]
    rfl
  unfold isHexLiteral at h
  split at h
  · exact hmarked 'x' _ rfl h
  · exact hmarked 'X' _ rfl h
  · cases h

theorem isInline_numberLiteral (text : String) : IsInline (numberLiteral text) := by
  unfold numberLiteral
  dsimp only
  split
  · exact isInline_toString _
  · split
    · exact isInline_floatLiteral _
    · split
      · next hhex =>
        refine isInline_of_isPlain ?_
        rw [String.toList_ofList]
        exact isPlain_of_isHexLiteral hhex
      · decide

/-- An operator is written between blanks: a slash alone might open a comment. -/
theorem binary_isInline {sign : String} (hsign : IsInline (" " ++ sign ++ " ")) (order : Precedence) :
    MakesOperand (binary p b sign order) := by
  refine (value_isInline p b _ _).bind fun left hleft => ?_
  refine (value_isInline p b _ _).bind fun right hright => .pure ?_
  have hbinary := (hleft.append hsign).append hright
  simp only [String.append_assoc] at hbinary ⊢
  exact hbinary

theorem power_isInline : MakesOperand (power p b) := by
  refine (value_isInline p b _ _).bind fun base hbase => ?_
  refine (value_isInline p b _ _).bind fun exponent hexponent => .pure ?_
  refine ⟨?_, by simp [Operand.atom, hbase.unbroken, hexponent.unbroken]⟩
  unfold Operand.atom
  simp only [String.append_assoc]
  exact Spans.text ⟨.code, 1, 0⟩ rfl <| hbase.balanced.then <| .plain rfl <|
    hexponent.balanced.then rfl

theorem arithmetic_isInline : MakesOperand (arithmetic p b) := by
  unfold arithmetic
  split
  · exact binary_isInline p b (by decide) _
  · exact binary_isInline p b (by decide) _
  · exact binary_isInline p b (by decide) _
  · exact binary_isInline p b (by decide) _
  · exact power_isInline p b
  · exact binary_isInline p b (by decide) _

theorem limit_isInline : MakesOperand (limit p b) := by
  have hsign : IsInline (if p.field b "OP" == "MAX" then ">" else "<") := by split <;> decide
  have hspace : IsInline " " := by decide
  refine (value_isInline p b _ _).bind fun left hleft => ?_
  refine (value_isInline p b _ _).bind fun right hright => .pure ?_
  exact (((((((hleft.append hspace).append hsign).append hspace).append hright).append
    (by decide)).append hleft).append (by decide)).append hright

theorem random_isInline : MakesOperand (random p b) := by
  refine (Returns.any _).bind fun _ _ => ?_
  refine (value_isInline p b _ _).bind fun low hlow => ?_
  refine (value_isInline p b _ _).bind fun high hhigh => .pure ?_
  refine ⟨?_, by simp [Operand.atom, hlow.unbroken, hhigh.unbroken]⟩
  unfold Operand.atom
  simp only [String.append_assoc]
  exact Spans.text ⟨.code, 1, 0⟩ rfl <| hlow.balanced.then <| .text ⟨.code, 2, 0⟩ rfl <|
    hhigh.balanced.then <| .plain rfl <| hlow.balanced.then rfl

theorem compare_isInline : MakesOperand (compare p b) := by
  unfold compare
  split <;> exact binary_isInline p b (by decide) _

theorem logic_isInline : MakesOperand (logic p b) := by
  unfold logic
  split <;> exact binary_isInline p b (by decide) _

theorem negate_isInline : MakesOperand (negate p b) := by
  have hsign : IsInline "!" := by decide
  exact (value_isInline p b _ _).bind fun _ hoperand => .pure (hsign.append hoperand)

theorem boolean_isInline : MakesOperand (boolean p b) := by
  have hvalue : IsInline (if p.field b "BOOL" == "FALSE" then "0" else "1") := by split <;> decide
  exact makesOperand_pure hvalue .atomic

theorem number_isInline : MakesOperand (number p b) := by
  have hliteral := isInline_numberLiteral (p.field b "NUM")
  exact makesOperand_pure hliteral _

theorem text_isInline : MakesOperand (text p b) := by
  have hquote := isInline_quote (p.field b "TEXT")
  exact makesOperand_pure hquote .atomic

/-! ## Variables and arrays -/

theorem isInline_variableName : IsInline (variableName p b) := Identifier.isInline_ofName _

theorem readVariable_isInline : MakesOperand (readVariable p b) := by
  have hname := isInline_variableName p b
  exact makesOperand_pure hname .atomic

theorem stepVariable_isBalanced : MakesBalanced (stepVariable p b) := by
  have hname := (isInline_variableName p b).balanced
  have hsign : Text.IsBalanced (if p.field b "OP" == "--" then "--" else "++") := by split <;> decide
  have hend : Text.IsBalanced ";\n" := rfl
  exact .pure ((hname.append hsign).append hend)

theorem assign_isBalanced : MakesBalanced (assign p b) := by
  have hname := (isInline_variableName p b).balanced
  refine (value_isInline p b _ _).bind fun text htext => (Returns.any _).bind fun type _ => ?_
  split
  · refine (Returns.any _).bind fun _ _ => (Returns.any _).bind fun _ _ => .pure ?_
    simp only [String.append_assoc]
    exact Spans.text ⟨.code, 1, 0⟩ rfl <| hname.then <| .plain rfl <| htext.balanced.then rfl
  · refine .pure ?_
    simp only [String.append_assoc]
    exact hname.then <| .plain rfl <| htext.balanced.then rfl

theorem uninitialized_isBalanced : MakesBalanced (uninitialized b (variableName p b)) := by
  have hname := isInline_variableName p b
  refine diagnose_isBalanced .error b ?_ ?_
  · simp [hname.unbroken]
  · simp [hname.not_mem_return]

theorem arrayIndex_isInline (size : Int) : MakesInline (arrayIndex p b size) := by
  refine (value_isInline p b _ _).bind fun text htext => ?_
  split
  · exact .pure (isInline_toString _)
  · exact .pure htext

theorem arrayInit_isBalanced : MakesBalanced (arrayInit p b) := by
  have hname := isInline_variableName p b
  refine (Returns.any _).bind fun isNew _ => ?_
  split
  · refine diagnose_isBalanced .warning b ?_ ?_
    · simp [hname.unbroken]
    · simp [hname.not_mem_return]
  · exact .pure isBalanced_empty

theorem arrayGet_isInline : MakesOperand (arrayGet p b) := by
  unfold arrayGet
  dsimp only
  split
  · refine (uninitialized_isBalanced p b).bind fun line hline => .pure ?_
    exact Comment.isInline_beforeValue (Scanner.not_mem_return hline) (by decide)
  · refine (arrayIndex_isInline p b _).bind fun index hindex => .pure ?_
    exact (((isInline_variableName p b).append (by decide)).append hindex).append (by decide)

theorem arraySet_isBalanced : MakesBalanced (arraySet p b) := by
  have hname := (isInline_variableName p b).balanced
  unfold arraySet
  dsimp only
  split
  · exact uninitialized_isBalanced p b
  · refine (arrayIndex_isInline p b _).bind fun index hindex => ?_
    refine (value_isInline p b _ _).bind fun text htext => .pure ?_
    simp only [String.append_assoc]
    exact hname.then <| .plain rfl <| hindex.balanced.then <| .plain rfl <| htext.balanced.then rfl

theorem overflowWarning_isBalanced (size : Int) (count : Nat) :
    MakesBalanced (overflowWarning b (variableName p b) size count) := by
  have hname := isInline_variableName p b
  have hsize : '\n' ∉ size.repr.toList ∧ '\r' ∉ size.repr.toList :=
    ⟨(isInline_toString size).unbroken, (isInline_toString size).not_mem_return⟩
  unfold overflowWarning
  split
  · refine diagnose_isBalanced .warning b ?_ ?_
    · simp [hname.unbroken, hsize.1]
    · simp [hname.not_mem_return, hsize.2]
  · exact .pure isBalanced_empty

/-- Numbers separated by commas. -/
theorem isBalanced_list (values : List Int) :
    Text.IsBalanced (", ".intercalate (values.map toString)) := by
  refine (isInline_of_isPlain (List.all_eq_true.2 fun c hc => ?_)).balanced
  rw [String.toList_intercalate] at hc
  rcases mem_of_mem_intercalate hc with hc | ⟨text, htext, hc⟩
  · exact List.all_eq_true.1 (show ", ".toList.all isPlain = true from rfl) c hc
  · obtain ⟨_, hn, rfl⟩ := List.mem_map.1 htext
    obtain ⟨n, -, rfl⟩ := List.mem_map.1 hn
    exact isPlain_of_isNumeral (isNumeral_of_mem_toString hc)

theorem arrayFill_isBalanced : MakesBalanced (arrayFill p b) := by
  have hname := isInline_variableName p b
  unfold arrayFill
  dsimp only
  split
  · exact uninitialized_isBalanced p b
  · next size _ =>
    split
    · refine diagnose_isBalanced .warning b ?_ ?_
      · simp [hname.unbroken]
      · simp [hname.not_mem_return]
    · refine (overflowWarning_isBalanced p b _ _).bind fun line hline => ?_
      refine (Returns.any _).bind fun _ _ => (Returns.freshName "tmpArr").bind fun temp htemp => ?_
      have htemp := (isInline_freshName (by decide) htemp).balanced
      have hlist := isBalanced_list ((listedValues (p.field b "NUM")).take size.toNat)
      have hcount : Text.IsBalanced
          (toString ((listedValues (p.field b "NUM")).take size.toNat).length) :=
        (isInline_toString (_ : Nat)).balanced
      refine .pure ?_
      simp only [String.append_assoc]
      exact hline.then <| .plain rfl <| htemp.then <| .text ⟨.code, 0, 1⟩ rfl <| hlist.then <|
        .text ⟨.code, 1, 0⟩ rfl <| hname.balanced.then <| .plain rfl <| htemp.then <| .plain rfl <|
        hcount.then rfl

theorem arrayClear_isBalanced : MakesBalanced (arrayClear p b) := by
  have hname := (isInline_variableName p b).balanced
  unfold arrayClear
  dsimp only
  split
  · exact uninitialized_isBalanced p b
  · refine (Returns.any _).bind fun _ _ => .pure ?_
    simp only [String.append_assoc]
    exact Spans.text ⟨.code, 1, 0⟩ rfl <| hname.then <| .plain rfl <| hname.then rfl

/-! ## The console -/

/-- Doubling percent signs is not noticed. -/
theorem scan_doubled (s : Scanner) (cs : List Char) :
    s.scan (cs.flatMap fun c => if c = '%' then ['%', '%'] else [c]) = s.scan cs := by
  induction cs generalizing s with
  | nil => rfl
  | cons c cs ih =>
    rw [List.flatMap_cons, scan_append]
    split
    · next hpercent =>
      subst hpercent
      obtain ⟨mode, parens, braces⟩ := s
      cases mode <;> exact ih _
    · rw [scan_cons, scan_cons]
      cases s.step c with
      | none => rfl
      | some t => exact ih t

theorem lineEnd_spans : Spans ⟨.literal, 1, 0⟩ (lineEnd p b) ⟨.literal, 1, 0⟩ := by
  unfold lineEnd
  split <;> rfl

theorem print_isBalanced : MakesBalanced (print p b) := by
  have hend := lineEnd_spans p b
  refine (value_isInline p b _ _).bind fun message hmessage => ?_
  split
  · next body hbody =>
    have hformat : Spans ⟨.literal, 1, 0⟩ (formatOf body) ⟨.literal, 1, 0⟩ := by
      rw [Spans, formatOf, String.toList_ofList, scan_doubled]
      exact spans_of_literalBody? hmessage.balanced hbody
    have hopen : Spans start "print(\"" ⟨.literal, 1, 0⟩ := rfl
    exact .pure (((hopen.append hformat).append hend).append rfl)
  · have hopen : Spans start "print(\"%s" ⟨.literal, 1, 0⟩ := rfl
    have hcomma : Spans ⟨.literal, 1, 0⟩ "\", " ⟨.code, 1, 0⟩ := rfl
    exact .pure ((((hopen.append hend).append hcomma).append hmessage.balanced.spans).append rfl)

theorem printValue_isBalanced : MakesBalanced (printValue p b) := by
  have hopen : Spans start "print(\"" ⟨.literal, 1, 0⟩ := rfl
  have hconversion : Spans ⟨.literal, 1, 0⟩ (conversion (p.field b "FORMAT")) ⟨.literal, 1, 0⟩ := by
    unfold conversion
    split <;> rfl
  have hcomma : Spans ⟨.literal, 1, 0⟩ "\", " ⟨.code, 1, 0⟩ := rfl
  refine (value_isInline p b _ _).bind fun number hnumber => .pure ?_
  exact ((((hopen.append hconversion).append (lineEnd_spans p b)).append hcomma).append
    hnumber.balanced.spans).append rfl

theorem printNewline_isBalanced : MakesBalanced printNewline := by
  have hline : Text.IsBalanced "print(\"\\r\");\n" := rfl
  exact .pure hline

/-! ## Recipes -/

/-- The kinds of blocks that compute, control and print, without custom code, free comments and
devices. -/
def plainKinds : List Kind := [.pause, .systemCounter, .branch, .repeatLoop, .countingLoop,
  .leaveLoop, .procedure, .procedureCall, .newCog, .number, .arithmetic, .limit, .stepVariable,
  .random, .boolean, .compare, .logic, .negate, .text, .readVariable, .assign, .arrayInit,
  .arrayGet, .arraySet, .arrayFill, .arrayClear, .print, .printValue, .printNewline]

variable {p b}

theorem MakesBalanced.fragment {code : Recipe String} (h : MakesBalanced code) :
    (Emitter.statement code).fragment.Returns Fragment.IsBalanced Fragment.IsBalanced :=
  h.bind fun _ htext => .pure htext

theorem MakesOperand.fragment {code : Recipe Operand} (h : MakesOperand code) :
    (Emitter.value code).fragment.Returns Fragment.IsBalanced Fragment.IsBalanced :=
  h.bind fun _ ho => .pure ho

variable (p b)

/-- The blocks of these kinds yield balanced code of balanced code, if a branch among them has as many
conditions as it counts. -/
theorem emitter_isBalanced (id : BlockId) {kind : Kind} (hkind : kind ∈ plainKinds)
    (hbranch : kind = .branch → b.mutationCount "elseif" ≠ Block.greatestCount) :
    (emitter p id b kind).fragment.Returns Fragment.IsBalanced Fragment.IsBalanced := by
  cases kind with
  | pause => exact (pause_isBalanced p b).fragment
  | systemCounter => exact MakesOperand.fragment (.pure (by decide))
  | branch => exact (branch_isBalanced p b (hbranch rfl)).fragment
  | repeatLoop => exact (repeatLoop_isBalanced p b).fragment
  | countingLoop => exact (countingLoop_isBalanced p b).fragment
  | leaveLoop => exact MakesBalanced.fragment (.pure rfl)
  | procedure => exact (procedure_isBalanced p b).fragment
  | procedureCall => exact (procedureCall_isBalanced p b).fragment
  | newCog => exact (newCog_isBalanced p b).fragment
  | number => exact (number_isInline p b).fragment
  | arithmetic => exact (arithmetic_isInline p b).fragment
  | limit => exact (limit_isInline p b).fragment
  | stepVariable => exact (stepVariable_isBalanced p b).fragment
  | random => exact (random_isInline p b).fragment
  | boolean => exact (boolean_isInline p b).fragment
  | compare => exact (compare_isInline p b).fragment
  | logic => exact (logic_isInline p b).fragment
  | negate => exact (negate_isInline p b).fragment
  | text => exact (text_isInline p b).fragment
  | readVariable => exact (readVariable_isInline p b).fragment
  | assign => exact (assign_isBalanced p b).fragment
  | arrayInit => exact (arrayInit_isBalanced p b).fragment
  | arrayGet => exact (arrayGet_isInline p b).fragment
  | arraySet => exact (arraySet_isBalanced p b).fragment
  | arrayFill => exact (arrayFill_isBalanced p b).fragment
  | arrayClear => exact (arrayClear_isBalanced p b).fragment
  | print => exact (print_isBalanced p b).fragment
  | printValue => exact (printValue_isBalanced p b).fragment
  | printNewline => exact printNewline_isBalanced.fragment
  | _ => exact absurd hkind (by decide)

end Emit

end BlockCompiler
