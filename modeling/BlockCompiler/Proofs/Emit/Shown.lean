import BlockCompiler.Proofs.Emit.Convey

set_option autoImplicit false

/-! # Recipes that show what they are told

Of all that is recorded on the path of a recipe, and of all that the code shows which it gets and
uses, nothing is lost in its outcome. Two kinds of recipes are left for later: a function and the
initializers of devices put the code of their sockets into texts that they register. -/

namespace BlockCompiler

open Text Comment

attribute [grind →] Diagnostic.IsCited.holds

namespace Emit

open Recipe

variable (p : Project) (b : Block) (d : Diagnostic)

/-- The statements of a recipe show what the recipe is told. -/
def ShowsText (r : Recipe String) : Prop := BlockConveys p b d False (fun _ => True) d.IsShown r

/-- The value of a recipe shows what the recipe is told. -/
def ShowsOperand (r : Recipe Operand) : Prop :=
  BlockConveys p b d False (fun o => IsSettled o.text) (fun o => d.IsCited o.text) r

/-- A remark that replaces the code shows what it is told. -/
def ShowsRemark (r : Recipe (Option String)) : Prop :=
  BlockConveys p b d False (fun _ => True) (fun w => ∃ line ∈ w, d.IsShown line) r

variable {d}

/-- A text without sockets is told nothing. -/
theorem shows_pure (text : String) : ShowsText p b d (pure text) := .pure trivial False.elim

theorem shows_diagnose (severity : Severity) (about : Block) (message : String) :
    ShowsText p b d (Recipe.diagnose severity about message) :=
  BlockConveys.mono .diagnose (fun _ _ => trivial) fun _ => Or.rec False.elim id

theorem shows_pure_operand {text : String} (h : IsSettled text) (order : Precedence) :
    ShowsOperand p b d (pure ⟨text, order⟩) :=
  .pure h False.elim

theorem shows_no_remark : ShowsRemark p b d (pure none) := .pure trivial False.elim

/-- A remark is the code; without one, nothing was told. -/
theorem ShowsRemark.unless {check : Recipe (Option String)} {code : Recipe String}
    (hcheck : ShowsRemark p b d check) (hcode : ShowsText p b d code) :
    ShowsText p b d (do
      match ← check with
      | some line => return line
      | none => code) := by
  refine Conveys.bind hcheck fun remark _ => ?_
  cases remark with
  | some line =>
    refine .pure trivial ?_
    rintro ⟨_, ⟨⟩, hline⟩
    exact hline
  | none =>
    refine Conveys.of_imp hcode ?_
    rintro ⟨_, ⟨⟩, -⟩

theorem shows_remark (about : Block) (message : String) :
    ShowsRemark p b d (Recipe.warning about message >>= fun line => pure (some line)) :=
  Conveys.bind (shows_diagnose p b .warning about message) fun line _ =>
    .pure trivial fun hline => ⟨line, rfl, hline⟩

variable (hd : d.IsOneLine)

include hd

/-! ## Control flow -/

theorem pause_showsText : ShowsText p b d (pause p b) :=
  (value_conveys p b hd _ _).bind fun _ _ => .pure trivial fun _ => .inr (by grind)

theorem loop_conveys (head : String) :
    BlockConveys p b d (Holds d.note head) (fun _ => True) d.IsShown (loop p b head) := by
  refine (body_conveys p b hd _).bind fun stack _ => .pure trivial ?_
  rintro (hhead | hstack)
  · exact .inr (by grind)
  · have hopening : IsClosed (head ++ " \x7b\n") := .of_end head rfl
    exact (hstack.append_left hopening).append_right _

theorem repeatHead_conveys :
    BlockConveys p b d False (fun _ => True) (Holds d.note) (repeatHead p b) := by
  unfold repeatHead
  cases RepeatMode.ofBlock b with
  | forever => exact .pure trivial False.elim
  | times =>
    refine (value_conveys p b hd _ _).bind fun limit _ => Conveys.freshName.bind fun counter _ => ?_
    refine .pure trivial fun hlimit => ?_
    unfold timesHead
    grind
  | whileTrue => exact (value_conveys p b hd _ _).bind fun _ _ => .pure trivial fun _ => by grind
  | untilTrue => exact (value_conveys p b hd _ _).bind fun _ _ => .pure trivial fun _ => by grind

theorem repeatLoop_showsText : ShowsText p b d (repeatLoop p b) :=
  (repeatHead_conveys p b hd).bind fun head _ => loop_conveys p b hd head

omit hd in
theorem countingHead_conveys (name start finish step : String) :
    BlockConveys p b d (((False ∨ d.IsCited start) ∨ d.IsCited finish) ∨ d.IsCited step)
      (fun _ => True) (Holds d.note) (countingHead name start finish step) := by
  unfold countingHead
  split
  · next first last stride hfirst hlast hstride =>
    -- literals show nothing
    refine Conveys.overflowUnless.bind fun _ _ => .pure trivial ?_
    rintro (((htold | hcited) | hcited) | hcited)
    · exact htold.elim
    · cases hfirst.symm.trans hcited.not_integer
    · cases hlast.symm.trans hcited.not_integer
    · cases hstride.symm.trans hcited.not_integer
  · refine Conveys.ensure.bind fun _ _ => Conveys.freshName.bind fun first _ => ?_
    refine Conveys.freshName.bind fun last _ => Conveys.freshName.bind fun stride _ => ?_
    exact .pure trivial fun _ => by grind

theorem countingLoop_showsText : ShowsText p b d (countingLoop p b) := by
  have htype : ∀ d, Action.setType (Identifier.ofName (p.field b "VAR")) .int ≠ .diagnose d := nofun
  refine (Conveys.perform htype).bind fun _ _ => ?_
  refine (value_conveys p b hd _ _).bind fun start _ => ?_
  refine (value_conveys p b hd _ _).bind fun finish _ => ?_
  refine (value_conveys p b hd _ _).bind fun step _ => ?_
  exact (countingHead_conveys p b _ start finish step).bind fun head _ => loop_conveys p b hd head

theorem guarded_conveys {told : Prop} (n : Nat) :
    BlockConveys p b d told IsClosed (fun text => told ∨ d.IsShown text) (guarded p b n) := by
  refine (value_conveys p b hd _ _).bind fun condition _ => ?_
  refine (body_conveys p b hd _).bind fun stack hstack => ?_
  have hopening : ∀ front : String, IsClosed (front ++ ") \x7b\n") := fun front => .of_end front rfl
  refine .pure ((hopening _).append hstack) ?_
  rintro ((htold | hcited) | hshown)
  · exact .inl htold
  · exact .inr (.inr (by grind))
  · exact .inr (hshown.append_left (hopening _))

theorem otherwise_conveys {told : Prop} :
    BlockConveys p b d told IsClosed (fun text => told ∨ d.IsShown text) (otherwise p b) := by
  have helse : IsClosed "\x7d else \x7b\n" := .inr rfl
  unfold otherwise
  split
  · refine (body_conveys p b hd _).bind fun stack hstack => .pure (helse.append hstack) ?_
    exact Or.imp_right (·.append_left helse)
  · exact .pure isClosed_empty .inl

theorem branch_showsText : ShowsText p b d (branch p b) := by
  have hbranches : BlockConveys p b d False IsClosed (fun text => False ∨ d.IsShown text)
      (Recipe.concat ((List.range (conditionCount b)).map (guarded p b))) := by
    refine Conveys.concat fun r hr told => ?_
    obtain ⟨n, -, rfl⟩ := List.mem_map.1 hr
    exact guarded_conveys p b hd n
  refine Conveys.overflowUnless.bind fun _ _ => hbranches.bind fun branches hclosed => ?_
  refine (otherwise_conveys p b hd).bind fun last _ => ?_
  refine .pure trivial ?_
  rintro ((htold | hshown) | hshown)
  · exact htold.elim
  · exact (hshown.append_right last).append_right _
  · exact (hshown.append_left hclosed).append_right _

omit hd in
theorem procedureCall_showsText : ShowsText p b d (procedureCall p b) := by
  unfold procedureCall
  dsimp only
  split
  · exact shows_pure p b _
  · exact shows_diagnose p b _ _ _

omit hd in
theorem newCog_showsText : ShowsText p b d (newCog p b) := by
  unfold newCog
  split
  · exact shows_diagnose p b _ _ _
  · dsimp only
    split
    · exact shows_pure p b _
    · exact shows_diagnose p b _ _ _

/-! ## Variables and arrays -/

theorem assign_showsText : ShowsText p b d (assign p b) := by
  have htype : ∀ told name text, BlockConveys p b d told (fun _ => True) (fun _ => told)
      (assignedType p name text) := by
    intro told name text
    have hset : ∀ d, Action.setType name .char ≠ .diagnose d := nofun
    have hinfer : ∀ d, Action.inferType name text ≠ .diagnose d := nofun
    unfold assignedType
    split
    · exact (Conveys.perform hset).bind fun _ _ => .pure trivial id
    · exact .perform hinfer
  have hreserve : ∀ told name text, BlockConveys p b d told (fun _ => True) (fun _ => told)
      (reserveLiteral name text) := by
    intro told name text
    unfold reserveLiteral
    split
    · next body _ =>
      have hset : ∀ d, Action.setLength name (literalLength body + 1) ≠ .diagnose d := nofun
      exact .perform hset
    · exact .pure trivial id
  refine (value_conveys p b hd _ _).bind fun text _ => (htype _ _ _).bind fun type _ => ?_
  split
  · exact Conveys.ensure.bind fun _ _ => (hreserve _ _ _).bind fun _ _ =>
      .pure trivial fun _ => .inr (by grind)
  · exact .pure trivial fun _ => .inr (by grind)

theorem arrayIndex_conveys {told : Prop} (size : Int) : BlockConveys p b d told (fun _ => True)
    (fun text => told ∨ d.IsCited text) (arrayIndex p b size) := by
  refine (value_conveys p b hd _ _).bind fun text _ => ?_
  split
  · next n hn =>
    refine .pure trivial (Or.imp_right fun hcited => ?_)
    cases hn.symm.trans hcited.not_integer
  · exact .pure trivial id

omit hd in
theorem arrayInit_showsText : ShowsText p b d (arrayInit p b) := by
  have hregister : ∀ text d, Action.register .globals (arrayKey (variableName p b)) text ≠
      .diagnose d := nofun
  refine (Conveys.perform (hregister _)).bind fun isNew _ => ?_
  split
  · exact shows_diagnose p b _ _ _
  · exact shows_pure p b _

theorem arrayGet_showsOperand : ShowsOperand p b d (arrayGet p b) := by
  have hcomment : ∀ line, IsOpen (Comment.beforeValue line "0") := fun line =>
    isOpen_of_head? (Comment.head?_beforeValue line "0") rfl (by decide)
  unfold arrayGet
  dsimp only
  split
  · refine (shows_diagnose p b _ _ _).bind fun line _ => .pure (.inr (hcomment line)) ?_
    exact fun hline => hline.cited hd "0"
  · refine (arrayIndex_conveys p b hd _).bind fun index _ => ?_
    have hname := Identifier.isOpen_ofName (p.field b "VAR")
    refine .pure (.inr (((hname.append "[").append index).append "]")) ?_
    rintro (htold | hcited)
    · exact htold.elim
    · exact (hcited.append_left (hname.append "[")).append_right "]"

theorem arraySet_showsText : ShowsText p b d (arraySet p b) := by
  unfold arraySet
  dsimp only
  split
  · exact shows_diagnose p b _ _ _
  · exact (arrayIndex_conveys p b hd _).bind fun _ _ => (value_conveys p b hd _ _).bind fun _ _ =>
      .pure trivial fun _ => .inr (by grind)

omit hd in
theorem arrayFill_showsText : ShowsText p b d (arrayFill p b) := by
  have hoverflow : ∀ name size count, ShowsText p b d (overflowWarning b name size count) := by
    intro name size count
    unfold overflowWarning
    split
    · exact shows_diagnose p b _ _ _
    · exact shows_pure p b _
  unfold arrayFill
  dsimp only
  split
  · exact shows_diagnose p b _ _ _
  · split
    · exact shows_diagnose p b _ _ _
    · refine (hoverflow _ _ _).bind fun line _ => Conveys.ensure.bind fun _ _ => ?_
      refine Conveys.freshName.bind fun temp _ => .pure trivial fun hline => ?_
      simp only [String.append_assoc]
      exact hline.append_right _

omit hd in
theorem arrayClear_showsText : ShowsText p b d (arrayClear p b) := by
  unfold arrayClear
  dsimp only
  split
  · exact shows_diagnose p b _ _ _
  · exact Conveys.ensure.bind fun _ _ => shows_pure p b _

/-! ## The console -/

omit hd in
theorem customCode_showsText : ShowsText p b d (customCode p b) := by
  unfold customCode
  dsimp only
  split
  · exact Conveys.ensure.bind fun _ _ => shows_pure p b _
  · exact shows_pure p b _

/-- A literal is printed as the format itself; it shows nothing. -/
theorem print_showsText : ShowsText p b d (print p b) := by
  refine (value_conveys p b hd _ _).bind fun message _ => ?_
  split
  · next body hbody =>
    refine .pure trivial ?_
    rintro (htold | hcited)
    · exact htold.elim
    · cases hbody.symm.trans hcited.isOpen.not_literal
  · exact .pure trivial fun _ => .inr (by grind)

theorem printValue_showsText : ShowsText p b d (printValue p b) :=
  (value_conveys p b hd _ _).bind fun _ _ => .pure trivial fun _ => .inr (by grind)

/-! ## Operators -/

theorem binary_showsOperand {sign : String} {c : Char} (hc : c ∈ sign.toList)
    (hvisible : isBlank c = false) (order : Precedence) :
    ShowsOperand p b d (binary p b sign order) := by
  refine (value_conveys p b hd _ _).bind fun left hleft => ?_
  refine (value_conveys p b hd _ _).bind fun right _ => ?_
  have hopen : IsOpen (left ++ " " ++ sign ++ " ") := by
    simp only [String.append_assoc]
    exact hleft.isOpen_append (c := c) (by simp [hc]) hvisible
  refine .pure (.inr (hopen.append right)) ?_
  rintro ((htold | hcited) | hcited)
  · exact htold.elim
  · simp only [String.append_assoc]
    exact hcited.append_right _
  · exact hcited.append_left hopen

theorem power_showsOperand : ShowsOperand p b d (power p b) := by
  have hopen : IsOpen "pow(" := isOpen_of_head? (c := 'p') rfl rfl (by decide)
  refine (value_conveys p b hd _ _).bind fun base _ => ?_
  refine (value_conveys p b hd _ _).bind fun exponent _ => ?_
  have htext : IsOpen ("pow(" ++ base ++ ", " ++ exponent ++ ")") :=
    (((hopen.append _).append _).append _).append _
  exact .pure (.inr htext) fun _ => ⟨by grind [Operand.atom], htext⟩

theorem arithmetic_showsOperand : ShowsOperand p b d (arithmetic p b) := by
  unfold arithmetic
  split
  · exact binary_showsOperand p b hd (c := '-') (by decide) rfl _
  · exact binary_showsOperand p b hd (c := '*') (by decide) rfl _
  · exact binary_showsOperand p b hd (c := '/') (by decide) rfl _
  · exact binary_showsOperand p b hd (c := '%') (by decide) rfl _
  · exact power_showsOperand p b hd
  · exact binary_showsOperand p b hd (c := '+') (by decide) rfl _

theorem limit_showsOperand : ShowsOperand p b d (limit p b) := by
  refine (value_conveys p b hd _ _).bind fun left hleft => ?_
  refine (value_conveys p b hd _ _).bind fun right _ => ?_
  have hopen : IsOpen (left ++ " " ++ (if p.field b "OP" == "MAX" then ">" else "<") ++ " " ++
      right ++ " ? " ++ left ++ " : " ++ right) := by
    simp only [String.append_assoc]
    exact hleft.isOpen_append (c := '?') (by simp) rfl
  exact .pure (.inr hopen) fun _ => ⟨by grind, hopen⟩

theorem random_showsOperand : ShowsOperand p b d (random p b) := by
  have hopen : IsOpen "(" := isOpen_of_head? (c := '(') rfl rfl (by decide)
  refine Conveys.ensure.bind fun _ _ => (value_conveys p b hd _ _).bind fun low _ => ?_
  refine (value_conveys p b hd _ _).bind fun high _ => ?_
  have htext : IsOpen ("(" ++ low ++ " + rand() % (" ++ high ++ " - " ++ low ++ " + 1))") :=
    (((((hopen.append _).append _).append _).append _).append _).append _
  exact .pure (.inr htext) fun _ => ⟨by grind [Operand.atom], htext⟩

theorem compare_showsOperand : ShowsOperand p b d (compare p b) := by
  unfold compare
  split
  · exact binary_showsOperand p b hd (c := '!') (by decide) rfl _
  · exact binary_showsOperand p b hd (c := '<') (by decide) rfl _
  · exact binary_showsOperand p b hd (c := '<') (by decide) rfl _
  · exact binary_showsOperand p b hd (c := '>') (by decide) rfl _
  · exact binary_showsOperand p b hd (c := '>') (by decide) rfl _
  · exact binary_showsOperand p b hd (c := '=') (by decide) rfl _

theorem logic_showsOperand : ShowsOperand p b d (logic p b) := by
  unfold logic
  split
  · exact binary_showsOperand p b hd (c := '|') (by decide) rfl _
  · exact binary_showsOperand p b hd (c := '&') (by decide) rfl _

theorem negate_showsOperand : ShowsOperand p b d (negate p b) := by
  have hopen : IsOpen "!" := isOpen_of_head? (c := '!') rfl rfl (by decide)
  refine (value_conveys p b hd _ _).bind fun operand _ => .pure (.inr (hopen.append operand)) ?_
  rintro (htold | hcited)
  · exact htold.elim
  · exact hcited.append_left hopen

/-! ## Constants -/

omit hd in
/-- Digits, signs and points are no literal. -/
theorem isOpen_of_numerals {text : String} (hne : text ≠ "")
    (h : ∀ c ∈ text.toList, isNumeral c = true ∨ c = '.') : IsOpen text := by
  cases hchars : text.toList with
  | nil => exact absurd (String.toList_inj.1 hchars) hne
  | cons c cs =>
    rcases h c (hchars ▸ List.mem_cons_self) with hc | rfl
    · refine isOpen_of_head? (c := c) (by rw [hchars]; rfl) (not_isBlank_of_isNumeral hc) ?_
      rintro rfl
      cases hc
    · exact isOpen_of_head? (c := '.') (by rw [hchars]; rfl) rfl (by decide)

omit hd in
theorem isOpen_numberLiteral (text : String) : IsOpen (numberLiteral text) := by
  have hzero : ∀ {text : String}, text.toList.head? = some '0' → IsOpen text := fun hhead =>
    isOpen_of_head? hhead rfl (by decide)
  unfold numberLiteral
  dsimp only
  split
  · next n hn =>
    refine isOpen_of_numerals ?_ fun c hc => .inl (isNumeral_of_mem_toString hc)
    rintro hempty
    have hread := intLiteral?_toString (range_of_signed? hn).1 (range_of_signed? hn).2
    rw [hempty] at hread
    cases hread
  · split
    · next x _ =>
      rcases floatLiteral_chars x with hx | ⟨hpoint, hchars⟩
      · rw [hx]
        exact hzero rfl
      · refine isOpen_of_numerals ?_ hchars
        rintro hempty
        rw [hempty] at hpoint
        cases hpoint
    · split
      · next hhex =>
        unfold isHexLiteral at hhex
        split at hhex
        · next heq => rw [heq]; exact hzero (by simp)
        · next heq => rw [heq]; exact hzero (by simp)
        · cases hhex
      · exact hzero rfl

omit hd in
theorem number_showsOperand : ShowsOperand p b d (number p b) := by
  have hliteral := isOpen_numberLiteral (p.field b "NUM")
  exact shows_pure_operand p b (.inr hliteral) _

omit hd in
theorem boolean_showsOperand : ShowsOperand p b d (boolean p b) := by
  have hvalue : IsOpen (if p.field b "BOOL" == "FALSE" then "0" else "1") := by
    split
    · exact isOpen_of_head? (c := '0') rfl rfl (by decide)
    · exact isOpen_of_head? (c := '1') rfl rfl (by decide)
  exact shows_pure_operand p b (.inr hvalue) .atomic

omit hd in
theorem text_showsOperand : ShowsOperand p b d (text p b) :=
  shows_pure_operand p b (.inl ⟨p.field b "TEXT", rfl⟩) .atomic

omit hd in
theorem systemCounter_showsOperand : ShowsOperand p b d systemCounter :=
  shows_pure_operand p b (.inr (isOpen_of_head? (c := 'C') rfl rfl (by decide))) .atomic

omit hd in
theorem readVariable_showsOperand : ShowsOperand p b d (readVariable p b) := by
  have hname : IsOpen (variableName p b) := Identifier.isOpen_ofName _
  exact shows_pure_operand p b (.inr hname) .atomic

/-! ## Pins -/

theorem makePin_showsText : ShowsText p b d (makePin p b) :=
  (pin_conveys p b hd _).bind fun _ _ => .pure trivial fun _ => .inr (by grind)

theorem checkPin_showsOperand : ShowsOperand p b d (checkPin p b) := by
  have hopen : IsOpen "input(" := isOpen_of_head? (c := 'i') rfl rfl (by decide)
  refine (pin_conveys p b hd _).bind fun number _ => ?_
  have htext : IsOpen ("input(" ++ number ++ ")") := (hopen.append _).append _
  exact .pure (.inr htext) fun _ => ⟨by grind [Operand.atom], htext⟩

omit hd in
/-- An initializer that comes too late has its remark for its code. -/
theorem initializer_showsText {id : BlockId} {kind : Kind} {label : String} {setUp : Recipe String}
    (h : ShowsText p b d setUp) : ShowsText p b d (initializer p id b kind label setUp) := by
  have hwarning : ShowsRemark p b d (duplicateWarning? p id b kind label) := by
    unfold duplicateWarning?
    split
    · exact shows_no_remark p b
    · split
      · exact shows_no_remark p b
      · exact shows_remark p b _ _
  exact hwarning.unless p b h

theorem pwmStart_showsText (id : BlockId) : ShowsText p b d (pwmStart p b id) := by
  refine initializer_showsText p b ?_
  exact (clampedValue_conveys p b hd _ _ _ _).bind fun _ _ => .pure trivial fun _ => .inr (by grind)

theorem pwmSet_showsText : ShowsText p b d (pwmSet p b) := by
  unfold pwmSet
  split
  · exact (pin_conveys p b hd _).bind fun _ _ => (clampedValue_conveys p b hd _ _ _ _).bind
      fun _ _ => .pure trivial fun _ => .inr (by grind)
  · exact shows_diagnose p b _ _ _

theorem frequencyOut_showsText : ShowsText p b d (frequencyOut p b) :=
  (pin_conveys p b hd _).bind fun _ _ => (clampedValue_conveys p b hd _ _ _ _).bind fun _ _ =>
    (clampedValue_conveys p b hd _ _ _ _).bind fun _ _ => .pure trivial fun _ => .inr (by grind)

/-- An angle that is read as a number shows nothing. -/
theorem servoAngle_conveys {told : Prop} : BlockConveys p b d told (fun _ => True)
    (fun text => told ∨ d.IsCited text) (servoAngle p b) := by
  refine (operand_conveys p b hd _).bind fun found _ => ?_
  cases found with
  | some o =>
    have hshown : (told ∨ ∃ o' ∈ some o, d.IsCited o'.text) → told ∨ d.IsCited o.text := by
      refine Or.imp_right ?_
      rintro ⟨_, ⟨⟩, hcited⟩
      exact hcited
    dsimp only
    split
    · next n hn =>
      refine .pure trivial fun htold => (hshown htold).imp_right fun hcited => ?_
      cases hn.symm.trans hcited.not_integer
    · refine .pure trivial fun htold => (hshown htold).imp_right fun hcited => ?_
      exact (Operand.isCited_within hcited _).append_right _
  | none =>
    refine .pure trivial (Or.imp_right ?_)
    rintro ⟨_, ⟨⟩, -⟩

theorem servoMove_showsText : ShowsText p b d (servoMove p b) :=
  Conveys.ensure.bind fun _ _ => (pin_conveys p b hd _).bind fun _ _ =>
    (servoAngle_conveys p b hd).bind fun _ _ => .pure trivial fun _ => .inr (by grind)

theorem servoSpeed_showsText : ShowsText p b d (servoSpeed p b) :=
  Conveys.ensure.bind fun _ _ => (pin_conveys p b hd _).bind fun _ _ =>
    (clampedValue_conveys p b hd _ _ _ _).bind fun _ _ => .pure trivial fun _ => .inr (by grind)

theorem servoRamp_showsText : ShowsText p b d (servoRamp p b) :=
  Conveys.ensure.bind fun _ _ => (pin_conveys p b hd _).bind fun _ _ =>
    (clampedValue_conveys p b hd _ _ _ _).bind fun _ _ => .pure trivial fun _ => .inr (by grind)

/-! ## Sound -/

theorem soundPlay_showsText : ShowsText p b d (soundPlay p b) := by
  have hcall : ∀ call channel greatest, ShowsText p b d (soundCall p b call channel greatest) :=
    fun call channel greatest => (clampedValue_conveys p b hd _ _ _ _).bind fun _ _ =>
      .pure trivial fun _ => .inr (by grind)
  unfold soundPlay
  split
  · dsimp only
    split
    · exact hcall _ _ _
    · exact hcall _ _ _
    · exact shows_pure p b _
    · exact hcall _ _ _
  · exact shows_diagnose p b _ _ _

omit hd in
theorem cardWarning?_showsRemark : ShowsRemark p b d (cardWarning? p b) := by
  unfold cardWarning?
  split
  · exact shows_no_remark p b
  · split
    · exact Conveys.ensure.bind fun _ _ => shows_no_remark p b
    · exact shows_remark p b _ _

omit hd in
theorem wavPlay_showsText : ShowsText p b d (wavPlay p b) := by
  refine (cardWarning?_showsRemark p b).unless p b ?_
  split
  · exact shows_diagnose p b _ _ _
  · exact Conveys.ensure.bind fun _ _ => shows_pure p b _

theorem wavVolume_showsText : ShowsText p b d (wavVolume p b) :=
  Conveys.ensure.bind fun _ _ => (clampedValue_conveys p b hd _ _ _ _).bind fun _ _ =>
    .pure trivial fun _ => .inr (by grind)

omit hd in
theorem wavStop_showsText : ShowsText p b d (wavStop) :=
  Conveys.ensure.bind fun _ _ => shows_pure p b _

/-! ## Files -/

omit hd in
theorem fileWarning?_showsRemark : ShowsRemark p b d (fileWarning? p b) := by
  refine Conveys.bind (cardWarning?_showsRemark p b) fun w _ => ?_
  cases w with
  | some line => exact .pure trivial id
  | none =>
    dsimp only
    split
    · refine Conveys.ensure.bind fun _ _ => .pure trivial id
    · refine Conveys.of_imp (shows_remark p b _ _) ?_
      rintro ⟨_, ⟨⟩, -⟩

omit hd in
theorem fileOpen_showsText : ShowsText p b d (fileOpen p b) := by
  refine (cardWarning?_showsRemark p b).unless p b ?_
  split
  · exact shows_diagnose p b _ _ _
  · exact Conveys.ensure.bind fun _ _ => shows_pure p b _

theorem fileRead_showsText : ShowsText p b d (fileRead p b) := by
  have hreserve : ∀ told name size, BlockConveys p b d told (fun _ => True) (fun _ => told)
      (reserveRead name size) := by
    intro told name size
    unfold reserveRead
    split
    · next n _ =>
      have hset : ∀ d, Action.setLength name (n.toNat + 1) ≠ .diagnose d := nofun
      split
      · exact .perform hset
      · exact .pure trivial id
    · exact .pure trivial id
  have htype : ∀ d, Action.setType (variableName p b) .char ≠ .diagnose d := nofun
  refine (fileWarning?_showsRemark p b).unless p b ?_
  exact (value_conveys p b hd _ _).bind fun _ _ => (Conveys.perform htype).bind fun _ _ =>
    (hreserve _ _ _).bind fun _ _ => .pure trivial fun _ => .inr (by grind)

theorem fileWrite_showsText : ShowsText p b d (fileWrite p b) := by
  have hlength : ∀ told text, BlockConveys p b d told (fun _ => True) (fun _ => told)
      (textLength text) := by
    intro told text
    unfold textLength
    split
    · exact .pure trivial id
    · exact Conveys.ensure.bind fun _ _ => .pure trivial id
  refine (fileWarning?_showsRemark p b).unless p b ?_
  exact (value_conveys p b hd _ _).bind fun _ _ => (hlength _ _).bind fun _ _ =>
    .pure trivial fun _ => .inr (by grind)

omit hd in
theorem fileClose_showsText : ShowsText p b d (fileClose p b) :=
  (fileWarning?_showsRemark p b).unless p b (shows_pure p b _)

/-! ## Memory -/

theorem memoryAddress_conveys : BlockConveys p b d False (fun _ => True) (Holds d.note)
    (memoryAddress p b) :=
  Conveys.ensure.bind fun _ _ => (value_conveys p b hd _ _).bind fun _ _ =>
    .pure trivial fun _ => by grind

theorem writeTo_conveys (address : String) (stored : Stored) :
    BlockConveys p b d (Holds d.note address) (fun _ => True) d.IsShown
      (writeTo p b address stored) := by
  have hbyte : ∀ found : Operand, d.IsCited found.text → Holds d.note (byteText found) := by
    intro found hcited
    have hwithin := Operand.isCited_within hcited .bitwiseAnd
    unfold byteText
    rw [hcited.not_integer]
    exact (hwithin.holds.append_left _).append_right _
  have hlength : ∀ told text, BlockConveys p b d told (fun _ => True) (fun _ => told)
      (storedLength text) := by
    intro told text
    unfold storedLength
    split
    · exact .pure trivial id
    · exact Conveys.ensure.bind fun _ _ => .pure trivial id
  cases stored with
  | number =>
    exact (value_conveys p b hd _ _).bind fun _ _ => .pure trivial fun _ => .inr (by grind)
  | byte =>
    refine (operandOrDefault_conveys p b hd _).bind fun found _ => .pure trivial fun hshown => ?_
    have hheld := hshown.imp_right (hbyte found)
    exact .inr (by grind)
  | text =>
    refine (value?_conveys p b hd _ _).bind fun found _ => (hlength _ _).bind fun _ _ => ?_
    refine .pure trivial fun hshown => .inr ?_
    rcases hshown with haddress | ⟨text, htext, hcited⟩
    · grind
    · obtain rfl : found = some text := htext
      have hcontent : Holds d.note ((some text).getD "\"\"") := hcited.holds
      grind

theorem memoryWrite_showsText : ShowsText p b d (memoryWrite p b) :=
  (memoryAddress_conveys p b hd).bind fun address _ => writeTo_conveys p b hd address _

omit hd in
theorem readFrom_conveys (address name : String) (stored : Stored) :
    BlockConveys p b d (Holds d.note address) (fun _ => True) d.IsShown
      (readFrom address name stored) := by
  have htype : ∀ type d, Action.setType name type ≠ .diagnose d := nofun
  have hlength : ∀ d, Action.setLength name memoryTextLength ≠ .diagnose d := nofun
  cases stored with
  | number =>
    exact (Conveys.perform (htype _)).bind fun _ _ => .pure trivial fun _ => .inr (by grind)
  | byte =>
    exact (Conveys.perform (htype _)).bind fun _ _ => .pure trivial fun _ => .inr (by grind)
  | text =>
    exact (Conveys.perform (htype _)).bind fun _ _ => (Conveys.perform hlength).bind fun _ _ =>
      .pure trivial fun _ => .inr (by grind)

theorem memoryRead_showsText : ShowsText p b d (memoryRead p b) :=
  (memoryAddress_conveys p b hd).bind fun address _ => readFrom_conveys p b address _ _

/-! ## Robots -/

omit hd in
theorem withDrive_showsText {code : Drive → Recipe String}
    (h : ∀ drive, ShowsText p b d (code drive)) : ShowsText p b d (withDrive p b code) := by
  unfold withDrive
  split
  · exact h _
  · exact shows_diagnose p b _ _ _

theorem driveGoto_showsText : ShowsText p b d (driveGoto p b) := by
  refine withDrive_showsText p b fun drive => ?_
  split
  · exact shows_diagnose p b _ _ _
  · exact (value_conveys p b hd _ _).bind fun _ _ => (value_conveys p b hd _ _).bind fun _ _ =>
      .pure trivial fun _ => .inr (by grind)

theorem driveSpeed_showsText : ShowsText p b d (driveSpeed p b) :=
  withDrive_showsText p b fun _ => (clampedValue_conveys p b hd _ _ _ _).bind fun _ _ =>
    (clampedValue_conveys p b hd _ _ _ _).bind fun _ _ => .pure trivial fun _ => .inr (by grind)

omit hd in
theorem driveStop_showsText : ShowsText p b d (driveStop p b) :=
  withDrive_showsText p b fun _ => shows_pure p b _

omit hd in
theorem scribblerWarning?_showsRemark : ShowsRemark p b d (scribblerWarning? p b) := by
  unfold scribblerWarning?
  split
  · exact Conveys.ensure.bind fun _ _ => Conveys.ensure.bind fun _ _ => shows_no_remark p b
  · exact shows_remark p b _ _

omit hd in
theorem onScribbler_showsText {code : Recipe String} (h : ShowsText p b d code) :
    ShowsText p b d (onScribbler p b code) :=
  (scribblerWarning?_showsRemark p b).unless p b h

theorem fromScribbler_showsOperand {text : String} (h : IsOpen text) :
    ShowsOperand p b d (fromScribbler p b (return .atom text)) := by
  refine Conveys.bind (scribblerWarning?_showsRemark p b) fun w _ => ?_
  cases w with
  | some line =>
    have hcomment : IsOpen (Comment.beforeValue line "0") :=
      isOpen_of_head? (Comment.head?_beforeValue line "0") rfl (by decide)
    refine .pure (.inr hcomment) ?_
    rintro ⟨_, ⟨⟩, hline⟩
    exact hline.cited hd "0"
  | none =>
    refine .pure (.inr h) ?_
    rintro ⟨_, ⟨⟩, -⟩

theorem scribblerDrive_showsText : ShowsText p b d (scribblerDrive p b) :=
  onScribbler_showsText p b <| (clampedValue_conveys p b hd _ _ _ _).bind fun _ _ =>
    (clampedValue_conveys p b hd _ _ _ _).bind fun _ _ =>
    (clampedValue_conveys p b hd _ _ _ _).bind fun _ _ => .pure trivial fun _ => .inr (by grind)

omit hd in
theorem scribblerLed_showsText : ShowsText p b d (scribblerLed p b) := by
  refine onScribbler_showsText p b ?_
  dsimp only
  split
  · exact shows_pure p b _
  · refine (shows_diagnose p b _ _ _).bind fun line _ => .pure trivial fun hline => ?_
    simp only [String.append_assoc]
    exact hline.append_right _

theorem scribblerPlay_showsText : ShowsText p b d (scribblerPlay p b) :=
  onScribbler_showsText p b <| (clampedValue_conveys p b hd _ _ _ _).bind fun _ _ =>
    (clampedValue_conveys p b hd _ _ _ _).bind fun _ _ => .pure trivial fun _ => .inr (by grind)

theorem scribblerLine_showsOperand : ShowsOperand p b d (scribblerLine p b) := by
  refine fromScribbler_showsOperand p b hd ?_
  simp only [String.append_assoc]
  exact (isOpen_of_head? (c := 's') rfl rfl (by decide) : IsOpen "s3_simpleLine(").append _

theorem scribblerObstacle_showsOperand : ShowsOperand p b d (scribblerObstacle p b) := by
  refine fromScribbler_showsOperand p b hd ?_
  simp only [String.append_assoc]
  exact (isOpen_of_head? (c := 's') rfl rfl (by decide) : IsOpen "s3_simpleObstacle(").append _

omit hd in
theorem scribblerStop_showsText : ShowsText p b d (scribblerStop p b) :=
  onScribbler_showsText p b (shows_pure p b _)

/-! ## The catalog -/

omit hd in
/-- The key of the setup in which an initializer stores the code of its sockets. -/
def setupKey? : Kind → Option String
  | .soundInit => some "sound_init"
  | .cardInit => some cardSetup
  | .driveInit => some "robot_pins"
  | _ => none

/-- The code of an emitter shows what it is told. -/
def EmitterShows (p : Project) (b : Block) (d : Diagnostic) : Emitter → Prop
  | .statement code => ShowsText p b d code
  | .value code => ShowsOperand p b d code

/-- Of the recipes of all kinds, only that of a function and those of three initializers do not show
what they are told. -/
theorem emitter_showsTold (id : BlockId) {kind : Kind} (hprocedure : kind ≠ .procedure)
    (hsetup : setupKey? kind = none) : EmitterShows p b d (emitter p id b kind) := by
  cases kind with
  | comment => exact shows_pure p b _
  | customCode => exact customCode_showsText p b
  | pause => exact pause_showsText p b hd
  | systemCounter => exact systemCounter_showsOperand p b
  | branch => exact branch_showsText p b hd
  | repeatLoop => exact repeatLoop_showsText p b hd
  | countingLoop => exact countingLoop_showsText p b hd
  | leaveLoop => exact shows_pure p b _
  | procedure => exact absurd rfl hprocedure
  | procedureCall => exact procedureCall_showsText p b
  | newCog => exact newCog_showsText p b
  | number => exact number_showsOperand p b
  | arithmetic => exact arithmetic_showsOperand p b hd
  | limit => exact limit_showsOperand p b hd
  | stepVariable => exact shows_pure p b _
  | random => exact random_showsOperand p b hd
  | boolean => exact boolean_showsOperand p b
  | compare => exact compare_showsOperand p b hd
  | logic => exact logic_showsOperand p b hd
  | negate => exact negate_showsOperand p b hd
  | text => exact text_showsOperand p b
  | readVariable => exact readVariable_showsOperand p b
  | assign => exact assign_showsText p b hd
  | arrayInit => exact arrayInit_showsText p b
  | arrayGet => exact arrayGet_showsOperand p b hd
  | arraySet => exact arraySet_showsText p b hd
  | arrayFill => exact arrayFill_showsText p b
  | arrayClear => exact arrayClear_showsText p b
  | print => exact print_showsText p b hd
  | printValue => exact printValue_showsText p b hd
  | printNewline => exact shows_pure p b _
  | makePin => exact makePin_showsText p b hd
  | makePinInput => exact makePin_showsText p b hd
  | checkPin => exact checkPin_showsOperand p b hd
  | checkPinInput => exact checkPin_showsOperand p b hd
  | setPins => exact shows_pure p b _
  | pwmStart => exact pwmStart_showsText p b hd id
  | pwmSet => exact pwmSet_showsText p b hd
  | pwmStop => exact shows_pure p b _
  | frequencyOut => exact frequencyOut_showsText p b hd
  | soundInit => cases hsetup
  | soundPlay => exact soundPlay_showsText p b hd
  | wavPlay => exact wavPlay_showsText p b
  | wavVolume => exact wavVolume_showsText p b hd
  | wavStop => exact wavStop_showsText p b
  | cardInit => cases hsetup
  | fileOpen => exact fileOpen_showsText p b
  | fileRead => exact fileRead_showsText p b hd
  | fileWrite => exact fileWrite_showsText p b hd
  | fileClose => exact fileClose_showsText p b
  | servoMove => exact servoMove_showsText p b hd
  | servoSpeed => exact servoSpeed_showsText p b hd
  | servoRamp => exact servoRamp_showsText p b hd
  | memoryWrite => exact memoryWrite_showsText p b hd
  | memoryRead => exact memoryRead_showsText p b hd
  | driveInit => cases hsetup
  | driveGoto => exact driveGoto_showsText p b hd
  | driveSpeed => exact driveSpeed_showsText p b hd
  | driveStop => exact driveStop_showsText p b
  | scribblerDrive => exact scribblerDrive_showsText p b hd
  | scribblerStop => exact scribblerStop_showsText p b
  | scribblerLed => exact scribblerLed_showsText p b
  | scribblerPlay => exact scribblerPlay_showsText p b hd
  | scribblerLine => exact scribblerLine_showsOperand p b hd
  | scribblerObstacle => exact scribblerObstacle_showsOperand p b hd

omit hd in
theorem EmitterShows.fragment {e : Emitter} (h : EmitterShows p b d e) :
    BlockConveys p b d False (fun g => ∀ found, g = .expression found → IsSettled found.text)
      (Fragment.Shows d) e.fragment := by
  cases e with
  | statement code => exact Conveys.bind h fun text _ => .pure nofun id
  | value code =>
    refine Conveys.bind h fun found hfound => .pure ?_ id
    rintro _ ⟨⟩
    exact hfound

/-- The code of a block shows what its recipe is told, unless the kind is one that stores code. -/
theorem recipe_conveys (id : BlockId) (h : ∀ kind, Kind.ofName? b.type = some kind →
    kind ≠ .procedure ∧ setupKey? kind = none) :
    BlockConveys p b d False (fun g => ∀ found, g = .expression found → IsSettled found.text)
      (Fragment.Shows d) (recipe p id b) := by
  cases hkind : Kind.ofName? b.type with
  | none =>
    have hunknown : EmitterShows p b d (.statement (unknownType b)) := shows_diagnose p b _ _ _
    rw [recipe_of_unknown hkind]
    exact hunknown.fragment p b
  | some kind =>
    rw [recipe_of_kind hkind]
    exact (emitter_showsTold p b hd id (h kind hkind).1 (h kind hkind).2).fragment p b

end Emit

end BlockCompiler
