import BlockCompiler.Proofs.Emit.Catalog
import BlockCompiler.Proofs.Emit.Counting
import BlockCompiler.Proofs.Recipe.Draw

set_option autoImplicit false

/-! # Temporaries of recipes

Three kinds of blocks draw numbers: two loops, and the block that copies a list into an array. A recipe
of these draws one number for each of the kind's temporaries or none at all, and declares in its text the
temporaries that it has numbers for. The recipes of all other kinds draw no number. -/

namespace BlockCompiler.Emit

open Recipe

variable (p : Project) (b : Block)

/-! ## Sockets -/

theorem operand_drawsNone (socket : String) : (operand p b socket).DrawsNone := by
  unfold operand
  split
  · exact .pure none
  · split
    · exact .pure none
    · split
      · exact .pure none
      · refine (DrawsNone.code _).bind fun g => ?_
        cases g with
        | expression found => exact .pure (some found)
        | statement text =>
          dsimp only
          split
          · exact .pure _
          · exact (DrawsNone.diagnose _ _ _).bind fun comment => .pure _

theorem operandOrDefault_drawsNone (socket : String) : (operandOrDefault p b socket).DrawsNone := by
  refine (operand_drawsNone p b socket).bind fun found => ?_
  cases found with
  | some found => exact .pure found
  | none => exact .pure _

theorem value?_drawsNone (socket : String) (outer : Precedence) :
    (value? p b socket outer).DrawsNone :=
  (operand_drawsNone p b socket).bind fun _ => .pure _

theorem value_drawsNone (socket : String) (outer : Precedence) :
    (value p b socket outer).DrawsNone :=
  (value?_drawsNone p b socket outer).bind fun _ => .pure _

theorem clampedValue_drawsNone (socket : String) (low high : Int) (outer : Precedence) :
    (clampedValue p b socket low high outer).DrawsNone := by
  refine (operandOrDefault_drawsNone p b socket).bind fun found => ?_
  split
  · exact .pure _
  · exact .pure _

theorem pin_drawsNone (name : String) : (pin p b name).DrawsNone := by
  unfold pin
  split
  · exact value_drawsNone p b name .anything
  · exact .pure _

theorem member_drawsNone (id : BlockId) : (member p id).DrawsNone := by
  unfold member
  split
  · exact .pure ""
  · split
    · exact .pure ""
    · refine (DrawsNone.code id).bind fun g => ?_
      cases g with
      | statement text => exact .pure text
      | expression found => exact .pure ""

theorem chainEnd_drawsNone (repeated : Option BlockId) : (chainEnd p repeated).DrawsNone := by
  unfold chainEnd
  split
  · exact .diagnose _ _ _
  · exact .pure ""

theorem chain_drawsNone (head : BlockId) : (chain p head).DrawsNone := by
  have hmembers : ∀ r ∈ (p.workspace.chainFrom head).members.map (member p), r.DrawsNone := by
    intro r hr
    obtain ⟨id, -, rfl⟩ := List.mem_map.1 hr
    exact member_drawsNone p id
  exact (DrawsNone.concat hmembers).bind fun _ => (chainEnd_drawsNone p _).bind fun _ => .pure _

theorem body_drawsNone (socket : String) : (body p b socket).DrawsNone := by
  unfold body
  split
  · exact .pure ""
  · exact (chain_drawsNone p _).bind fun _ => .pure _

theorem initializer_drawsNone {id : BlockId} {kind : Kind} {label : String} {setUp : Recipe String}
    (h : setUp.DrawsNone) : (initializer p id b kind label setUp).DrawsNone := by
  have hwarning : (duplicateWarning? p id b kind label).DrawsNone := by
    unfold duplicateWarning?
    split
    · exact .pure none
    · split
      · exact .pure none
      · exact (DrawsNone.diagnose _ _ _).bind fun _ => .pure _
  exact DrawsNone.unless hwarning h

/-! ## Control flow -/

theorem pause_drawsNone : (pause p b).DrawsNone :=
  (value_drawsNone p b _ _).bind fun _ => .pure _

theorem branch_drawsNone : (branch p b).DrawsNone := by
  have hotherwise : (otherwise p b).DrawsNone := by
    unfold otherwise
    split
    · exact (body_drawsNone p b "ELSE").bind fun _ => .pure _
    · exact .pure ""
  refine (DrawsNone.overflowUnless _).bind fun _ => ?_
  refine (DrawsNone.concat fun r hr => ?_).bind fun _ => hotherwise.bind fun _ => .pure _
  obtain ⟨n, -, rfl⟩ := List.mem_map.1 hr
  exact (value_drawsNone p b _ _).bind fun _ => (body_drawsNone p b _).bind fun _ => .pure _

theorem procedure_drawsNone : (procedure p b).DrawsNone := by
  refine (body_drawsNone p b "STACK").bind fun _ => (DrawsNone.ensure _ _ _).bind fun _ => ?_
  refine (DrawsNone.perform _).bind fun isNew => ?_
  cases isNew with
  | true => exact .pure ""
  | false => exact .diagnose _ _ _

theorem procedureCall_drawsNone : (procedureCall p b).DrawsNone := by
  unfold procedureCall
  dsimp only
  split
  · exact .pure _
  · exact .diagnose _ _ _

theorem newCog_drawsNone : (newCog p b).DrawsNone := by
  unfold newCog
  split
  · exact .diagnose _ _ _
  · dsimp only
    split
    · exact .pure _
    · exact .diagnose _ _ _

/-! ## Texts and values -/

theorem customCode_drawsNone : (customCode p b).DrawsNone := by
  unfold customCode
  dsimp only
  split
  · exact (DrawsNone.ensure _ _ _).bind fun _ => .pure ""
  · exact .pure _

theorem print_drawsNone : (print p b).DrawsNone := by
  refine (value_drawsNone p b _ _).bind fun message => ?_
  split
  · exact .pure _
  · exact .pure _

theorem printValue_drawsNone : (printValue p b).DrawsNone :=
  (value_drawsNone p b _ _).bind fun _ => .pure _

theorem binary_drawsNone (sign : String) (order : Precedence) : (binary p b sign order).DrawsNone :=
  (value_drawsNone p b _ _).bind fun _ => (value_drawsNone p b _ _).bind fun _ => .pure _

theorem power_drawsNone : (power p b).DrawsNone :=
  (value_drawsNone p b _ _).bind fun _ => (value_drawsNone p b _ _).bind fun _ => .pure _

theorem arithmetic_drawsNone : (arithmetic p b).DrawsNone := by
  unfold arithmetic
  split
  · exact binary_drawsNone p b _ _
  · exact binary_drawsNone p b _ _
  · exact binary_drawsNone p b _ _
  · exact binary_drawsNone p b _ _
  · exact power_drawsNone p b
  · exact binary_drawsNone p b _ _

theorem compare_drawsNone : (compare p b).DrawsNone := by
  unfold compare
  split <;> exact binary_drawsNone p b _ _

theorem logic_drawsNone : (logic p b).DrawsNone := by
  unfold logic
  split <;> exact binary_drawsNone p b _ _

theorem limit_drawsNone : (limit p b).DrawsNone :=
  (value_drawsNone p b _ _).bind fun _ => (value_drawsNone p b _ _).bind fun _ => .pure _

theorem random_drawsNone : (random p b).DrawsNone :=
  (DrawsNone.ensure _ _ _).bind fun _ => (value_drawsNone p b _ _).bind fun _ =>
    (value_drawsNone p b _ _).bind fun _ => .pure _

theorem negate_drawsNone : (negate p b).DrawsNone :=
  (value_drawsNone p b _ _).bind fun _ => .pure _

/-! ## Variables and memory -/

theorem includeStrings_drawsNone : includeStrings.DrawsNone := .ensure _ _ _

theorem assignedType_drawsNone (name text : String) : (assignedType p name text).DrawsNone := by
  unfold assignedType
  split
  · exact (DrawsNone.perform _).bind fun _ => .pure _
  · exact .perform _

theorem reserveLiteral_drawsNone (name text : String) : (reserveLiteral name text).DrawsNone := by
  unfold reserveLiteral
  split
  · exact .perform _
  · exact .pure ()

theorem assign_drawsNone : (assign p b).DrawsNone := by
  refine (value_drawsNone p b _ _).bind fun text => ?_
  refine (assignedType_drawsNone p _ text).bind fun type => ?_
  split
  · exact includeStrings_drawsNone.bind fun _ => (reserveLiteral_drawsNone _ _).bind fun _ => .pure _
  · exact .pure _

theorem memoryAddress_drawsNone : (memoryAddress p b).DrawsNone :=
  (DrawsNone.ensure _ _ _).bind fun _ => (value_drawsNone p b _ _).bind fun _ => .pure _

theorem storedLength_drawsNone (text : String) : (storedLength text).DrawsNone := by
  unfold storedLength
  split
  · exact .pure _
  · exact includeStrings_drawsNone.bind fun _ => .pure _

theorem memoryWrite_drawsNone : (memoryWrite p b).DrawsNone := by
  refine (memoryAddress_drawsNone p b).bind fun address => ?_
  cases Stored.ofField (p.field b "TYPE") with
  | number => exact (value_drawsNone p b _ _).bind fun _ => .pure _
  | byte => exact (operandOrDefault_drawsNone p b _).bind fun _ => .pure _
  | text =>
    exact (value?_drawsNone p b _ _).bind fun _ => (storedLength_drawsNone _).bind fun _ => .pure _

theorem memoryRead_drawsNone : (memoryRead p b).DrawsNone := by
  refine (memoryAddress_drawsNone p b).bind fun address => ?_
  cases Stored.ofField (p.field b "TYPE") with
  | number => exact (DrawsNone.perform _).bind fun _ => .pure _
  | byte => exact (DrawsNone.perform _).bind fun _ => .pure _
  | text => exact (DrawsNone.perform _).bind fun _ => (DrawsNone.perform _).bind fun _ => .pure _

/-! ## Arrays -/

theorem arrayIndex_drawsNone (size : Int) : (arrayIndex p b size).DrawsNone := by
  refine (value_drawsNone p b _ _).bind fun text => ?_
  split
  · exact .pure _
  · exact .pure _

theorem arrayInit_drawsNone : (arrayInit p b).DrawsNone := by
  refine (DrawsNone.perform _).bind fun isNew => ?_
  split
  · exact .diagnose _ _ _
  · exact .pure ""

theorem arrayGet_drawsNone : (arrayGet p b).DrawsNone := by
  unfold arrayGet
  dsimp only
  split
  · exact (DrawsNone.diagnose _ _ _).bind fun _ => .pure _
  · exact (arrayIndex_drawsNone p b _).bind fun _ => .pure _

theorem arraySet_drawsNone : (arraySet p b).DrawsNone := by
  unfold arraySet
  dsimp only
  split
  · exact .diagnose _ _ _
  · exact (arrayIndex_drawsNone p b _).bind fun _ => (value_drawsNone p b _ _).bind fun _ => .pure _

theorem arrayClear_drawsNone : (arrayClear p b).DrawsNone := by
  unfold arrayClear
  dsimp only
  split
  · exact .diagnose _ _ _
  · exact includeStrings_drawsNone.bind fun _ => .pure _

/-! ## Pins -/

theorem makePin_drawsNone : (makePin p b).DrawsNone := (pin_drawsNone p b _).bind fun _ => .pure _

theorem checkPin_drawsNone : (checkPin p b).DrawsNone := (pin_drawsNone p b _).bind fun _ => .pure _

theorem pwmStart_drawsNone (id : BlockId) : (pwmStart p b id).DrawsNone :=
  initializer_drawsNone p b ((clampedValue_drawsNone p b _ _ _ _).bind fun _ => .pure _)

theorem pwmSet_drawsNone : (pwmSet p b).DrawsNone := by
  unfold pwmSet
  split
  · exact (pin_drawsNone p b _).bind fun _ => (clampedValue_drawsNone p b _ _ _ _).bind fun _ => .pure _
  · exact .diagnose _ _ _

theorem frequencyOut_drawsNone : (frequencyOut p b).DrawsNone :=
  (pin_drawsNone p b _).bind fun _ => (clampedValue_drawsNone p b _ _ _ _).bind fun _ =>
    (clampedValue_drawsNone p b _ _ _ _).bind fun _ => .pure _

theorem servoAngle_drawsNone : (servoAngle p b).DrawsNone := by
  refine (operand_drawsNone p b _).bind fun found => ?_
  cases found with
  | some found =>
    dsimp only
    split
    · exact .pure _
    · exact .pure _
  | none => exact .pure _

theorem servoMove_drawsNone : (servoMove p b).DrawsNone :=
  (DrawsNone.ensure _ _ _).bind fun _ => (pin_drawsNone p b _).bind fun _ =>
    (servoAngle_drawsNone p b).bind fun _ => .pure _

theorem servoSpeed_drawsNone : (servoSpeed p b).DrawsNone :=
  (DrawsNone.ensure _ _ _).bind fun _ => (pin_drawsNone p b _).bind fun _ =>
    (clampedValue_drawsNone p b _ _ _ _).bind fun _ => .pure _

theorem servoRamp_drawsNone : (servoRamp p b).DrawsNone :=
  (DrawsNone.ensure _ _ _).bind fun _ => (pin_drawsNone p b _).bind fun _ =>
    (clampedValue_drawsNone p b _ _ _ _).bind fun _ => .pure _

/-! ## Sound -/

theorem soundInit_drawsNone (id : BlockId) : (soundInit p b id).DrawsNone := by
  refine initializer_drawsNone p b ((pin_drawsNone p b _).bind fun _ => ?_)
  refine (pin_drawsNone p b _).bind fun _ => (DrawsNone.ensure _ _ _).bind fun _ => ?_
  exact (DrawsNone.ensure _ _ _).bind fun _ => (DrawsNone.ensure _ _ _).bind fun _ => .pure ""

theorem soundCall_drawsNone (call channel : String) (greatest : Int) :
    (soundCall p b call channel greatest).DrawsNone :=
  (clampedValue_drawsNone p b _ _ _ _).bind fun _ => .pure _

theorem soundPlay_drawsNone : (soundPlay p b).DrawsNone := by
  unfold soundPlay
  split
  · dsimp only
    split
    · exact soundCall_drawsNone p b _ _ _
    · exact soundCall_drawsNone p b _ _ _
    · exact .pure _
    · exact soundCall_drawsNone p b _ _ _
  · exact .diagnose _ _ _

theorem includeWave_drawsNone : includeWave.DrawsNone := .ensure _ _ _

theorem wavVolume_drawsNone : (wavVolume p b).DrawsNone :=
  includeWave_drawsNone.bind fun _ => (clampedValue_drawsNone p b _ _ _ _).bind fun _ => .pure _

theorem wavStop_drawsNone : wavStop.DrawsNone := includeWave_drawsNone.bind fun _ => .pure _

/-! ## The card -/

theorem cardWarning?_drawsNone : (cardWarning? p b).DrawsNone := by
  unfold cardWarning?
  split
  · exact .pure none
  · split
    · exact (DrawsNone.ensure _ _ _).bind fun _ => .pure none
    · exact (DrawsNone.diagnose _ _ _).bind fun _ => .pure _

theorem fileWarning?_drawsNone : (fileWarning? p b).DrawsNone := by
  refine (cardWarning?_drawsNone p b).bind fun found => ?_
  cases found with
  | some line => exact .pure _
  | none =>
    dsimp only
    split
    · exact (DrawsNone.ensure _ _ _).bind fun _ => .pure none
    · exact (DrawsNone.diagnose _ _ _).bind fun _ => .pure _

theorem cardInit_drawsNone (id : BlockId) : (cardInit p b id).DrawsNone := by
  refine initializer_drawsNone p b ((pin_drawsNone p b _).bind fun _ => ?_)
  refine (pin_drawsNone p b _).bind fun _ => (pin_drawsNone p b _).bind fun _ => ?_
  exact (pin_drawsNone p b _).bind fun _ => (DrawsNone.perform _).bind fun _ => .pure ""

theorem fileOpen_drawsNone : (fileOpen p b).DrawsNone := by
  refine DrawsNone.unless (cardWarning?_drawsNone p b) ?_
  split
  · exact .diagnose _ _ _
  · exact (DrawsNone.ensure _ _ _).bind fun _ => .pure _

theorem wavPlay_drawsNone : (wavPlay p b).DrawsNone := by
  refine DrawsNone.unless (cardWarning?_drawsNone p b) ?_
  split
  · exact .diagnose _ _ _
  · exact includeWave_drawsNone.bind fun _ => .pure _

theorem reserveRead_drawsNone (name size : String) : (reserveRead name size).DrawsNone := by
  unfold reserveRead
  split
  · split
    · exact .perform _
    · exact .pure ()
  · exact .pure ()

theorem fileRead_drawsNone : (fileRead p b).DrawsNone :=
  DrawsNone.unless (fileWarning?_drawsNone p b) <| (value_drawsNone p b _ _).bind fun _ =>
    (DrawsNone.perform _).bind fun _ => (reserveRead_drawsNone _ _).bind fun _ => .pure _

theorem textLength_drawsNone (text : String) : (textLength text).DrawsNone := by
  unfold textLength
  split
  · exact .pure _
  · exact includeStrings_drawsNone.bind fun _ => .pure _

theorem fileWrite_drawsNone : (fileWrite p b).DrawsNone :=
  DrawsNone.unless (fileWarning?_drawsNone p b) <| (value_drawsNone p b _ _).bind fun _ =>
    (textLength_drawsNone _).bind fun _ => .pure _

theorem fileClose_drawsNone : (fileClose p b).DrawsNone :=
  DrawsNone.unless (fileWarning?_drawsNone p b) (.pure _)

/-! ## Robots -/

theorem withDrive_drawsNone {code : Drive → Recipe String} (h : ∀ drive, (code drive).DrawsNone) :
    (withDrive p b code).DrawsNone := by
  unfold withDrive
  split
  · exact h _
  · exact .diagnose _ _ _

theorem driveInit_drawsNone (id : BlockId) : (driveInit p b id).DrawsNone := by
  refine initializer_drawsNone p b ((DrawsNone.ensure _ _ _).bind fun _ => ?_)
  split
  · refine DrawsNone.bind ?_ fun _ => .pure ""
    exact (pin_drawsNone p b _).bind fun _ => (pin_drawsNone p b _).bind fun _ => .ensure _ _ _
  · exact .pure ""

theorem driveGoto_drawsNone : (driveGoto p b).DrawsNone := by
  refine withDrive_drawsNone p b fun drive => ?_
  split
  · exact .diagnose _ _ _
  · exact (value_drawsNone p b _ _).bind fun _ => (value_drawsNone p b _ _).bind fun _ => .pure _

theorem driveSpeed_drawsNone : (driveSpeed p b).DrawsNone :=
  withDrive_drawsNone p b fun _ => (clampedValue_drawsNone p b _ _ _ _).bind fun _ =>
    (clampedValue_drawsNone p b _ _ _ _).bind fun _ => .pure _

theorem driveStop_drawsNone : (driveStop p b).DrawsNone :=
  withDrive_drawsNone p b fun _ => .pure _

theorem scribblerWarning?_drawsNone : (scribblerWarning? p b).DrawsNone := by
  unfold scribblerWarning?
  split
  · exact (DrawsNone.ensure _ _ _).bind fun _ => (DrawsNone.ensure _ _ _).bind fun _ => .pure none
  · exact (DrawsNone.diagnose _ _ _).bind fun _ => .pure _

theorem onScribbler_drawsNone {code : Recipe String} (h : code.DrawsNone) :
    (onScribbler p b code).DrawsNone :=
  DrawsNone.unless (scribblerWarning?_drawsNone p b) h

theorem fromScribbler_drawsNone {code : Recipe Operand} (h : code.DrawsNone) :
    (fromScribbler p b code).DrawsNone := by
  refine (scribblerWarning?_drawsNone p b).bind fun found => ?_
  cases found with
  | some line => exact .pure _
  | none => exact h

theorem scribblerDrive_drawsNone : (scribblerDrive p b).DrawsNone :=
  onScribbler_drawsNone p b ((clampedValue_drawsNone p b _ _ _ _).bind fun _ =>
    (clampedValue_drawsNone p b _ _ _ _).bind fun _ =>
      (clampedValue_drawsNone p b _ _ _ _).bind fun _ => .pure _)

theorem scribblerLed_drawsNone : (scribblerLed p b).DrawsNone := by
  refine onScribbler_drawsNone p b ?_
  dsimp only
  split
  · exact .pure _
  · exact (DrawsNone.diagnose _ _ _).bind fun _ => .pure _

theorem scribblerPlay_drawsNone : (scribblerPlay p b).DrawsNone :=
  onScribbler_drawsNone p b ((clampedValue_drawsNone p b _ _ _ _).bind fun _ =>
    (clampedValue_drawsNone p b _ _ _ _).bind fun _ => .pure _)

/-! ## The three kinds with temporaries -/

/-- The text declares the name as an integer or an array of integers, with a value. -/
def DeclaresInt (text name : String) : Prop :=
  ∃ front brackets back, brackets ∈ ["", "[]"] ∧
    text = front ++ "int " ++ name ++ brackets ++ " = " ++ back

theorem DeclaresInt.append {text name : String} (h : DeclaresInt text name) (rest : String) :
    DeclaresInt (text ++ rest) name := by
  obtain ⟨front, brackets, back, hbrackets, rfl⟩ := h
  exact ⟨front, brackets, back ++ rest, hbrackets, String.append_assoc⟩

/-- The temporaries that stems and numbers make. -/
def temporaries (stems : List String) (ns : List Nat) : List String := List.zipWith temporary stems ns

theorem temporaries_nil (stems : List String) : temporaries stems [] = [] := List.zipWith_nil_right

/-- There is a number for each stem or none at all, and the text declares the temporaries. -/
structure Declares (stems : List String) (ns : List Nat) (text : String) : Prop where
  length : ns = [] ∨ ns.length = stems.length
  declared : ∀ name ∈ temporaries stems ns, DeclaresInt text name

theorem Declares.nil (stems : List String) (text : String) : Declares stems [] text where
  length := .inl rfl
  declared := by
    rw [temporaries_nil]
    exact nofun

theorem Declares.append {stems : List String} {ns : List Nat} {text : String}
    (h : Declares stems ns text) (rest : String) : Declares stems ns (text ++ rest) where
  length := h.length
  declared name hname := (h.declared name hname).append rest

theorem declares_of_drawsNone {code : Recipe String} (h : code.DrawsNone) (stems : List String) :
    code.Draws (Declares stems) := by
  refine Draws.mono h ?_
  rintro _ text rfl
  exact .nil stems text

theorem repeatHead_draws : (repeatHead p b).Draws (Declares ["n"]) := by
  unfold repeatHead
  cases RepeatMode.ofBlock b with
  | forever => exact .pure (.nil _ _)
  | times =>
    refine (value_drawsNone p b _ _).followed fun limit => ?_
    refine (Draws.freshName "n").bind fun counter => .pure ?_
    rintro _ ⟨n, rfl, rfl⟩
    refine ⟨.inr rfl, fun name hname => ?_⟩
    obtain rfl := List.mem_singleton.1 hname
    have hopening : DeclaresInt ("for (int " ++ temporary "n" n ++ " = 0; ") (temporary "n" n) :=
      ⟨"for (", "", "0; ", List.mem_cons_self, String.toList_inj.1 (by simp)⟩
    have htest := (hopening.append (temporary "n" n)).append " < "
    exact (((htest.append limit).append "; ").append _).append "++)"
  | whileTrue => exact (value_drawsNone p b _ _).followed fun _ => .pure (.nil _ _)
  | untilTrue => exact (value_drawsNone p b _ _).followed fun _ => .pure (.nil _ _)

/-- The declarations of its head are those of a loop. -/
theorem loop_draws {stems : List String} (head : String) :
    (loop p b head).Draws fun ms text =>
      ∀ ns, Declares stems ns head → Declares stems (ns ++ ms) text := by
  refine (body_drawsNone p b "DO").followed fun stack => .pure fun ns hhead => ?_
  rw [List.append_nil]
  exact ((hhead.append _).append _).append _

theorem repeatLoop_draws : (repeatLoop p b).Draws (Declares ["n"]) :=
  (repeatHead_draws p b).bind fun head => loop_draws p b head

theorem temporaryHead_draws (name start finish step : String) :
    (temporaryHead name start finish step).Draws (Declares ["from", "to", "by"]) := by
  refine (DrawsNone.ensure _ _ _).followed fun _ => ?_
  refine (Draws.freshName "from").bind fun first => (Draws.freshName "to").bind fun last => ?_
  refine (Draws.freshName "by").bind fun stride => .pure ?_
  rintro _ ⟨i, rfl, hstride⟩ _ ⟨j, rfl, hlast⟩ _ ⟨k, rfl, hfirst⟩
  let opening := "int " ++ first ++ " = " ++ start
  let bound := ";\nint " ++ last ++ " = " ++ finish
  let size := "abs(" ++ step ++ ");\n" ++ computedHead name first last stride
  refine ⟨.inr rfl, fun name' hname' => ?_⟩
  simp only [temporaries, List.cons_append, List.nil_append, List.zipWith_cons_cons,
    List.zipWith_nil_left, List.mem_cons, List.not_mem_nil, or_false] at hname'
  rcases hname' with rfl | rfl | rfl
  · refine ⟨"", "", start ++ bound ++ ";\nint " ++ stride ++ " = " ++ size, List.mem_cons_self, ?_⟩
    exact String.toList_inj.1 (by simp [bound, size, hfirst, temporary])
  · refine ⟨opening ++ ";\n", "", finish ++ ";\nint " ++ stride ++ " = " ++ size,
      List.mem_cons_self, ?_⟩
    exact String.toList_inj.1 (by simp [opening, size, hlast, temporary])
  · refine ⟨opening ++ bound ++ ";\n", "", size, List.mem_cons_self, ?_⟩
    exact String.toList_inj.1 (by simp [opening, bound, size, hstride, temporary])

theorem countingHead_draws (name start finish step : String) :
    (countingHead name start finish step).Draws (Declares ["from", "to", "by"]) := by
  unfold countingHead
  split
  · exact (DrawsNone.overflowUnless _).followed fun _ => .pure (.nil _ _)
  · exact temporaryHead_draws name start finish step

theorem countingLoop_draws : (countingLoop p b).Draws (Declares ["from", "to", "by"]) := by
  refine (DrawsNone.perform _).followed fun _ => (value_drawsNone p b _ _).followed fun start => ?_
  refine (value_drawsNone p b _ _).followed fun finish => ?_
  refine (value_drawsNone p b _ _).followed fun step => ?_
  refine (countingHead_draws _ start finish step).bind fun head => ?_
  exact loop_draws p b head

theorem overflowWarning_drawsNone (name : String) (size : Int) (count : Nat) :
    (overflowWarning b name size count).DrawsNone := by
  unfold overflowWarning
  split
  · exact .diagnose _ _ _
  · exact .pure ""

theorem arrayFill_draws : (arrayFill p b).Draws (Declares ["tmpArr"]) := by
  unfold arrayFill
  dsimp only
  split
  · exact declares_of_drawsNone (DrawsNone.diagnose _ _ _) _
  · next size _ =>
    split
    · exact declares_of_drawsNone (DrawsNone.diagnose _ _ _) _
    · refine (overflowWarning_drawsNone b _ _ _).followed fun line => ?_
      refine includeStrings_drawsNone.followed fun _ => ?_
      refine (Draws.freshName "tmpArr").bind fun array => .pure ?_
      rintro _ ⟨n, rfl, rfl⟩
      refine ⟨.inr rfl, fun name hname => ?_⟩
      obtain rfl := List.mem_singleton.1 hname
      have hopening : DeclaresInt (line ++ "int " ++ temporary "tmpArr" n ++ "[] = \x7b")
          (temporary "tmpArr" n) :=
        ⟨line, "[]", "\x7b", List.mem_cons_of_mem _ List.mem_cons_self, String.toList_inj.1 (by simp)⟩
      -- behind the opening come the list, the end of the declaration and the call, part by part
      have hlist := hopening.append
        (", ".intercalate (((listedValues (p.field b "NUM")).take size.toNat).map toString))
      have hcall := (hlist.append "\x7d;\nmemcpy(").append (variableName p b)
      exact ((((hcall.append ", ").append _).append ", ").append _).append " * sizeof(int));\n"

/-! ## All kinds -/

/-- The stems of a kind's temporaries. -/
def stems : Kind → List String
  | .repeatLoop => ["n"]
  | .countingLoop => ["from", "to", "by"]
  | .arrayFill => ["tmpArr"]
  | _ => []

/-- An emitter of statements declares its temporaries, and one of a value has none. -/
def EmitterDraws (kind : Kind) : Emitter → Prop
  | .statement code => code.Draws (Declares (stems kind))
  | .value code => code.DrawsNone

theorem emitter_draws (id : BlockId) (kind : Kind) : EmitterDraws kind (emitter p id b kind) := by
  have hnone : ∀ {code : Recipe String}, code.DrawsNone → code.Draws (Declares (stems kind)) :=
    fun h => declares_of_drawsNone h _
  cases kind with
  | comment => exact hnone (.pure _)
  | customCode => exact hnone (customCode_drawsNone p b)
  | pause => exact hnone (pause_drawsNone p b)
  | systemCounter => exact .pure _
  | branch => exact hnone (branch_drawsNone p b)
  | repeatLoop => exact repeatLoop_draws p b
  | countingLoop => exact countingLoop_draws p b
  | leaveLoop => exact hnone (.pure _)
  | procedure => exact hnone (procedure_drawsNone p b)
  | procedureCall => exact hnone (procedureCall_drawsNone p b)
  | newCog => exact hnone (newCog_drawsNone p b)
  | number => exact .pure _
  | arithmetic => exact arithmetic_drawsNone p b
  | limit => exact limit_drawsNone p b
  | stepVariable => exact hnone (.pure _)
  | random => exact random_drawsNone p b
  | boolean => exact .pure _
  | compare => exact compare_drawsNone p b
  | logic => exact logic_drawsNone p b
  | negate => exact negate_drawsNone p b
  | text => exact .pure _
  | readVariable => exact .pure _
  | assign => exact hnone (assign_drawsNone p b)
  | arrayInit => exact hnone (arrayInit_drawsNone p b)
  | arrayGet => exact arrayGet_drawsNone p b
  | arraySet => exact hnone (arraySet_drawsNone p b)
  | arrayFill => exact arrayFill_draws p b
  | arrayClear => exact hnone (arrayClear_drawsNone p b)
  | print => exact hnone (print_drawsNone p b)
  | printValue => exact hnone (printValue_drawsNone p b)
  | printNewline => exact hnone (.pure _)
  | makePin => exact hnone (makePin_drawsNone p b)
  | makePinInput => exact hnone (makePin_drawsNone p b)
  | checkPin => exact checkPin_drawsNone p b
  | checkPinInput => exact checkPin_drawsNone p b
  | setPins => exact hnone (.pure _)
  | pwmStart => exact hnone (pwmStart_drawsNone p b id)
  | pwmSet => exact hnone (pwmSet_drawsNone p b)
  | pwmStop => exact hnone (.pure _)
  | frequencyOut => exact hnone (frequencyOut_drawsNone p b)
  | soundInit => exact hnone (soundInit_drawsNone p b id)
  | soundPlay => exact hnone (soundPlay_drawsNone p b)
  | wavPlay => exact hnone (wavPlay_drawsNone p b)
  | wavVolume => exact hnone (wavVolume_drawsNone p b)
  | wavStop => exact hnone wavStop_drawsNone
  | cardInit => exact hnone (cardInit_drawsNone p b id)
  | fileOpen => exact hnone (fileOpen_drawsNone p b)
  | fileRead => exact hnone (fileRead_drawsNone p b)
  | fileWrite => exact hnone (fileWrite_drawsNone p b)
  | fileClose => exact hnone (fileClose_drawsNone p b)
  | servoMove => exact hnone (servoMove_drawsNone p b)
  | servoSpeed => exact hnone (servoSpeed_drawsNone p b)
  | servoRamp => exact hnone (servoRamp_drawsNone p b)
  | memoryWrite => exact hnone (memoryWrite_drawsNone p b)
  | memoryRead => exact hnone (memoryRead_drawsNone p b)
  | driveInit => exact hnone (driveInit_drawsNone p b id)
  | driveGoto => exact hnone (driveGoto_drawsNone p b)
  | driveSpeed => exact hnone (driveSpeed_drawsNone p b)
  | driveStop => exact hnone (driveStop_drawsNone p b)
  | scribblerDrive => exact hnone (scribblerDrive_drawsNone p b)
  | scribblerStop => exact hnone (onScribbler_drawsNone p b (.pure _))
  | scribblerLed => exact hnone (scribblerLed_drawsNone p b)
  | scribblerPlay => exact hnone (scribblerPlay_drawsNone p b)
  | scribblerLine => exact fromScribbler_drawsNone p b (.pure _)
  | scribblerObstacle => exact fromScribbler_drawsNone p b (.pure _)

/-- The stems of a block's temporaries. -/
def blockStems (b : Block) : List String := ((Kind.ofName? b.type).map stems).getD []

/-- Statements declare the temporaries, and a value has none. -/
def DeclaresIn (stems : List String) (ns : List Nat) : Fragment → Prop
  | .statement text => Declares stems ns text
  | .expression _ => ns = []

theorem DeclaresIn.length_le {stems : List String} {ns : List Nat} {fragment : Fragment}
    (h : DeclaresIn stems ns fragment) : ns.length ≤ stems.length := by
  have hnone : ns = [] → ns.length ≤ stems.length := by
    rintro rfl
    exact Nat.zero_le _
  cases fragment with
  | statement text => exact h.length.elim hnone Nat.le_of_eq
  | expression found => exact hnone h

/-- What every recipe does with its numbers. -/
theorem recipe_draws (id : BlockId) : (recipe p id b).Draws (DeclaresIn (blockStems b)) := by
  have hstatement : ∀ {stems : List String} {code : Recipe String}, code.Draws (Declares stems) →
      (Emitter.statement code).fragment.Draws (DeclaresIn stems) := by
    refine fun h => h.bind fun text => .pure fun ns hdeclares => ?_
    rwa [List.append_nil]
  unfold blockStems
  cases h : Kind.ofName? b.type with
  | none =>
    rw [recipe_of_unknown h]
    exact hstatement (declares_of_drawsNone (DrawsNone.diagnose _ _ _) _)
  | some kind =>
    rw [recipe_of_kind h]
    have hdraws := emitter_draws p b id kind
    cases hemitter : emitter p id b kind with
    | statement code =>
      rw [hemitter] at hdraws
      exact hstatement hdraws
    | value code =>
      rw [hemitter] at hdraws
      exact DrawsNone.followed hdraws fun operand => .pure rfl

end BlockCompiler.Emit
