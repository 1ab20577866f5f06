import BlockCompiler.Proofs.Emit.Saying
import BlockCompiler.Proofs.Text.Literal

set_option autoImplicit false

/-! # Recipes whose code is taken for what it is

One statement for the blocks of all kinds: the recipe says what it may, its statements end with their
line, and they are taken for a diagnostic only if the recipe records one. Two kinds of blocks are left
out, since their code is the user's own text: comments, and custom code that stands where its block
does. -/

namespace BlockCompiler

open Text

namespace Emit

open Recipe

variable (p : Project) (b : Block)

/-! ## Control flow -/

theorem pause_speaks : SpeaksText p b (pause p b) :=
  (value_speaks p b _ _).after fun _ _ => speaks_code p b (by simp [startsCode]) rfl

theorem loop_speaks {head : String} (h : startsCode head = true) : SpeaksText p b (loop p b head) :=
  (body_speaks p b _).after fun _ _ =>
    speaks_code p b (startsCode_append (startsCode_append (startsCode_append h _) _) _) rfl

theorem startsCode_timesHead (counter limit : String) :
    startsCode (timesHead counter limit) = true := by
  unfold timesHead
  simp [startsCode]

theorem repeatHead_speaks : SpeaksPart p b (startsCode · = true) (repeatHead p b) := by
  unfold repeatHead
  cases RepeatMode.ofBlock b with
  | forever => exact .pure rfl trivial
  | times =>
    refine (value_speaks p b _ _).after fun _ _ => Speaks.freshName.after fun _ _ => ?_
    exact .pure (startsCode_timesHead _ _) trivial
  | whileTrue => exact (value_speaks p b _ _).after fun _ _ => .pure (by simp [startsCode]) trivial
  | untilTrue => exact (value_speaks p b _ _).after fun _ _ => .pure (by simp [startsCode]) trivial

theorem repeatLoop_speaks : SpeaksText p b (repeatLoop p b) :=
  (repeatHead_speaks p b).after fun _ hhead => loop_speaks p b hhead

theorem startsCode_literalHead (name : String) (first last step : Int) :
    startsCode (literalHead name first last step) = true := by
  unfold literalHead
  generalize (if first ≤ last then (" <= ", " += ") else (" >= ", " -= ")) = signs
  obtain ⟨test, move⟩ := signs
  simp only [String.append_assoc]
  exact startsCode_append rfl _

theorem countingHead_speaks (name start finish step : String) :
    SpeaksPart p b (startsCode · = true) (countingHead name start finish step) := by
  unfold countingHead
  split
  · exact Speaks.overflowUnless.after fun _ _ => .pure (startsCode_literalHead _ _ _ _) trivial
  · refine Speaks.ensure.after fun _ _ => Speaks.freshName.after fun _ _ => ?_
    refine Speaks.freshName.after fun _ _ => Speaks.freshName.after fun _ _ => ?_
    exact .pure (by simp [startsCode]) trivial

theorem countingLoop_speaks : SpeaksText p b (countingLoop p b) := by
  refine (Speaks.perform (by nofun)).after fun _ _ => (value_speaks p b _ _).after fun _ _ => ?_
  refine (value_speaks p b _ _).after fun _ _ => (value_speaks p b _ _).after fun _ _ => ?_
  exact (countingHead_speaks p b _ _ _ _).after fun _ hhead => loop_speaks p b hhead

theorem guarded_speaks (n : Nat) :
    SpeaksPart p b (fun text => IsClosed text ∧ (n = 0 → startsCode text = true))
      (guarded p b n) := by
  refine (value_speaks p b _ _).after fun condition _ => ?_
  refine (body_speaks p b _).after fun stack hstack => .pure ⟨?_, ?_⟩ trivial
  · exact IsClosed.append (.of_end _ rfl) hstack
  · rintro rfl
    simp [startsCode]

theorem otherwise_speaks :
    SpeaksPart p b (fun last => last = "" ∨ startsCode last = true) (otherwise p b) := by
  unfold otherwise
  split
  · exact (body_speaks p b _).after fun _ _ => .pure (.inr (by simp [startsCode])) trivial
  · exact .pure (.inl rfl) trivial

/-- The first of the branches starts their code, if there are any. -/
theorem branches_speak (count : Nat) :
    SpeaksPart p b (fun branches => branches = "" ∨ startsCode branches = true)
      (Recipe.concat ((List.range count).map (guarded p b))) := by
  cases count with
  | zero => exact .pure (.inl rfl) trivial
  | succ count =>
    rw [List.range_succ_eq_map, List.map_cons]
    have hothers : SpeaksPart p b IsClosed
        (Recipe.concat (((List.range count).map Nat.succ).map (guarded p b))) := by
      refine Speaks.concat fun r hr => ?_
      obtain ⟨n, -, rfl⟩ := List.mem_map.1 hr
      exact (guarded_speaks p b n).mono (fun _ h => h.1) fun _ => id
    exact (guarded_speaks p b 0).after fun first hfirst => hothers.after fun others _ =>
      .pure (.inr (startsCode_append (hfirst.2 rfl) others)) trivial

theorem branch_speaks : SpeaksText p b (branch p b) := by
  refine Speaks.overflowUnless.after fun _ _ => (branches_speak p b _).after fun branches hfirst => ?_
  refine (otherwise_speaks p b).after fun last hlast => speaks_code p b ?_ rfl
  rcases hfirst with rfl | hfirst
  · rcases hlast with rfl | hlast
    · rfl
    · rw [String.empty_append]
      exact startsCode_append hlast _
  · exact startsCode_append (startsCode_append hfirst _) _

/-! ## Functions -/

theorem isSentence_named {front back : String} (name : String) (hfront : '\n' ∉ front.toList)
    (hback : IsSentence back) : IsSentence (front ++ Identifier.ofName name ++ back) :=
  isSentence_around hfront (Identifier.not_mem_newline_ofName name) hback

theorem procedure_speaks : SpeaksText p b (procedure p b) := by
  refine (body_speaks p b _).after fun _ _ => Speaks.ensure.after fun _ _ => ?_
  refine (Speaks.perform (by nofun)).after fun isNew _ => ?_
  split
  · exact speaks_empty p b
  · exact speaks_sentence p b (isSentence_named _ (by decide) (isSentence_ofList rfl rfl (by decide)))

theorem undefinedWarning_speaks (name : String) :
    SpeaksText p b (undefinedWarning b (Identifier.ofName name)) :=
  speaks_sentence p b (isSentence_named _ (by decide) (isSentence_ofList rfl rfl (by decide)))

theorem procedureCall_speaks : SpeaksText p b (procedureCall p b) := by
  unfold procedureCall
  dsimp only
  split
  · exact speaks_code p b (startsCode_append (Identifier.startsCode_ofName _) _) rfl
  · exact undefinedWarning_speaks p b _

theorem newCog_speaks : SpeaksText p b (newCog p b) := by
  unfold newCog
  split
  · exact speaks_sentence p b (isSentence_ofList rfl rfl (by decide))
  · dsimp only
    split
    · exact speaks_code p b (by simp [startsCode]) rfl
    · exact undefinedWarning_speaks p b _

/-! ## Variables and arrays -/

theorem startsCode_variableName : startsCode (variableName p b) = true :=
  Identifier.startsCode_ofName _

theorem stepVariable_speaks : SpeaksText p b (stepVariable p b) :=
  speaks_code p b (startsCode_append (startsCode_append (startsCode_variableName p b) _) _) rfl

theorem assign_speaks : SpeaksText p b (assign p b) := by
  have htype : ∀ name text, SpeaksPart p b (fun _ => True) (assignedType p name text) := by
    intro name text
    have hinfer : ∀ d, Action.inferType name text ≠ .diagnose d := nofun
    unfold assignedType
    split
    · exact (Speaks.perform (by nofun)).after fun _ _ => .pure trivial trivial
    · exact .perform hinfer
  have hreserve : ∀ name text, SpeaksPart p b (fun _ => True) (reserveLiteral name text) := by
    intro name text
    unfold reserveLiteral
    split
    · next body _ =>
      have hset : ∀ d, Action.setLength name (literalLength body + 1) ≠ .diagnose d := nofun
      exact .perform hset
    · exact .pure trivial trivial
  refine (value_speaks p b _ _).after fun text _ => (htype _ _).after fun type _ => ?_
  split
  · refine Speaks.ensure.after fun _ _ => (hreserve _ _).after fun _ _ => ?_
    exact speaks_code p b (by simp [startsCode]) rfl
  · have hname := startsCode_variableName p b
    exact speaks_code p b (startsCode_append (startsCode_append (startsCode_append hname _) _) _) rfl

theorem isSentence_uninitialized :
    IsSentence ("The array \"" ++ variableName p b ++ "\" has not been initialized!") :=
  isSentence_named _ (by decide) (isSentence_ofList rfl rfl (by decide))

theorem uninitialized_speaks : SpeaksText p b (uninitialized b (variableName p b)) :=
  speaks_sentence p b (isSentence_uninitialized p b)

theorem arrayIndex_speaks (size : Int) : SpeaksPart p b (fun _ => True) (arrayIndex p b size) := by
  refine (value_speaks p b _ _).after fun text _ => ?_
  split
  · exact .pure trivial trivial
  · exact .pure trivial trivial

theorem arrayInit_speaks : SpeaksText p b (arrayInit p b) := by
  refine (Speaks.perform (by nofun)).after fun isNew _ => ?_
  split
  · exact speaks_sentence p b (isSentence_named _ (by decide) (isSentence_ofList rfl rfl (by decide)))
  · exact speaks_empty p b

theorem arrayGet_speaks : SpeaksPart p b (fun _ => True) (arrayGet p b) := by
  unfold arrayGet
  dsimp only
  split
  · exact (uninitialized_speaks p b).after fun _ _ => .pure trivial trivial
  · exact (arrayIndex_speaks p b _).after fun _ _ => .pure trivial trivial

theorem arraySet_speaks : SpeaksText p b (arraySet p b) := by
  unfold arraySet
  dsimp only
  split
  · exact uninitialized_speaks p b
  · refine (arrayIndex_speaks p b _).after fun _ _ => (value_speaks p b _ _).after fun _ _ => ?_
    have hname := startsCode_variableName p b
    refine speaks_code p b ?_ rfl
    simp only [String.append_assoc]
    exact startsCode_append hname _

theorem isSentence_arrayFull (size : Int) : IsSentence ("The array \"" ++ variableName p b ++
    "\" only has " ++ toString size ++ " elements; extra values were dropped.") := by
  refine isSentence_around ?_ ?_ (isSentence_ofList rfl rfl (by decide))
  · have hname : '\n' ∉ (variableName p b).toList := Identifier.not_mem_newline_ofName _
    simp [hname]
  · exact fun hmem => absurd (isNumeral_of_mem_toString hmem) (by decide)

theorem arrayFill_speaks : SpeaksText p b (arrayFill p b) := by
  have hoverflow : ∀ size count, (overflowWarning b (variableName p b) size count).Speaks
      (Says p b) (IsOwn b) (fun _ => True) (· = "") := by
    intro size count
    unfold overflowWarning
    split
    · exact (Speaks.diagnose (.inl (isSentence_arrayFull p b size)) ⟨rfl, rfl⟩).mono
        (fun _ _ => trivial) fun _ => False.elim
    · exact .pure trivial rfl
  unfold arrayFill
  dsimp only
  split
  · exact uninitialized_speaks p b
  · split
    · exact speaks_sentence p b
        (isSentence_named _ (by decide) (isSentence_ofList rfl rfl (by decide)))
    · refine (hoverflow _ _).bind fun line _ => Speaks.ensure.after fun _ _ => ?_
      refine Speaks.freshName.after fun temp _ => .pure (.of_end _ rfl) ?_
      rintro rfl
      exact Comment.not_isDiagnostic (by simp [startsCode])

theorem arrayClear_speaks : SpeaksText p b (arrayClear p b) := by
  unfold arrayClear
  dsimp only
  split
  · exact uninitialized_speaks p b
  · exact Speaks.ensure.after fun _ _ => speaks_code p b (by simp [startsCode]) rfl

/-! ## The console -/

theorem customCode_speaks (h : customSection? (p.field b "LOCATION") ≠ none) :
    SpeaksText p b (customCode p b) := by
  unfold customCode
  dsimp only
  split
  · exact Speaks.ensure.after fun _ _ => speaks_empty p b
  · next hnone => exact absurd hnone h

theorem print_speaks : SpeaksText p b (print p b) := by
  refine (value_speaks p b _ _).after fun message _ => ?_
  split
  · exact speaks_code p b (by simp [startsCode]) rfl
  · exact speaks_code p b (by simp [startsCode]) rfl

theorem printValue_speaks : SpeaksText p b (printValue p b) :=
  (value_speaks p b _ _).after fun _ _ => speaks_code p b (by simp [startsCode]) rfl

/-! ## Operators -/

theorem binary_speaks (sign : String) (order : Precedence) :
    SpeaksPart p b (fun _ => True) (binary p b sign order) :=
  (value_speaks p b _ _).after fun _ _ => (value_speaks p b _ _).after fun _ _ =>
    .pure trivial trivial

theorem arithmetic_speaks : SpeaksPart p b (fun _ => True) (arithmetic p b) := by
  have hpower : SpeaksPart p b (fun _ => True) (power p b) :=
    (value_speaks p b _ _).after fun _ _ => (value_speaks p b _ _).after fun _ _ =>
      .pure trivial trivial
  unfold arithmetic
  split
  · exact binary_speaks p b _ _
  · exact binary_speaks p b _ _
  · exact binary_speaks p b _ _
  · exact binary_speaks p b _ _
  · exact hpower
  · exact binary_speaks p b _ _

theorem limit_speaks : SpeaksPart p b (fun _ => True) (limit p b) :=
  (value_speaks p b _ _).after fun _ _ => (value_speaks p b _ _).after fun _ _ =>
    .pure trivial trivial

theorem random_speaks : SpeaksPart p b (fun _ => True) (random p b) :=
  Speaks.ensure.after fun _ _ => (value_speaks p b _ _).after fun _ _ =>
    (value_speaks p b _ _).after fun _ _ => .pure trivial trivial

theorem compare_speaks : SpeaksPart p b (fun _ => True) (compare p b) := by
  unfold compare
  split <;> exact binary_speaks p b _ _

theorem logic_speaks : SpeaksPart p b (fun _ => True) (logic p b) := by
  unfold logic
  split <;> exact binary_speaks p b _ _

theorem negate_speaks : SpeaksPart p b (fun _ => True) (negate p b) :=
  (value_speaks p b _ _).after fun _ _ => .pure trivial trivial

/-! ## Pins -/

theorem startsCode_pinCall (action : String) : startsCode (pinCall action) = true := by
  unfold pinCall
  split <;> rfl

theorem makePin_speaks : SpeaksText p b (makePin p b) := by
  have hcall := startsCode_pinCall (p.field b "ACTION")
  exact (pin_speaks p b _).after fun _ _ =>
    speaks_code p b (startsCode_append (startsCode_append (startsCode_append hcall _) _) _) rfl

theorem checkPin_speaks : SpeaksPart p b (fun _ => True) (checkPin p b) :=
  (pin_speaks p b _).after fun _ _ => .pure trivial trivial

theorem setPins_speaks : SpeaksText p b (setPins b) := by
  have hcall : startsCode (pinsCall (PinGroup.ofBlock b).action) = true := by
    cases (PinGroup.ofBlock b).action <;> rfl
  refine speaks_code p b ?_ rfl
  simp only [String.append_assoc]
  exact startsCode_append hcall _

/-- An initializer that comes too late has its remark for its code. -/
theorem initializer_speaks {id : BlockId} {kind : Kind} {label : String} {setUp : Recipe String}
    (hlabel : '\n' ∉ label.toList) (h : SpeaksText p b setUp) :
    SpeaksText p b (initializer p id b kind label setUp) := by
  have hwarning : SpeaksRemark p b (duplicateWarning? p id b kind label) := by
    unfold duplicateWarning?
    split
    · exact speaks_no_remark p b
    · split
      · exact speaks_no_remark p b
      · exact speaks_remark p b
          (isSentence_around (by decide) hlabel (isSentence_ofList rfl rfl (by decide)))
  exact Speaks.unless hwarning h

theorem pwmStart_speaks (id : BlockId) : SpeaksText p b (pwmStart p b id) := by
  refine initializer_speaks p b (by decide) ?_
  exact (clampedValue_speaks p b _ _ _ _).after fun _ _ => speaks_code p b (by simp [startsCode]) rfl

theorem speaks_missing {message : String} (h : message ∈ missingMessages) :
    SpeaksText p b (Recipe.warning b message) := by
  simp only [missingMessages, List.mem_cons, List.not_mem_nil, or_false] at h
  rcases h with rfl | rfl | rfl | rfl <;>
    exact speaks_sentence p b (isSentence_ofList rfl rfl (by decide))

theorem pwmSet_speaks : SpeaksText p b (pwmSet p b) := by
  unfold pwmSet
  split
  · exact (pin_speaks p b _).after fun _ _ => (clampedValue_speaks p b _ _ _ _).after fun _ _ =>
      speaks_code p b (by simp [startsCode]) rfl
  · exact speaks_missing p b (by simp [missingMessages])

theorem frequencyOut_speaks : SpeaksText p b (frequencyOut p b) :=
  (pin_speaks p b _).after fun _ _ => (clampedValue_speaks p b _ _ _ _).after fun _ _ =>
    (clampedValue_speaks p b _ _ _ _).after fun _ _ => speaks_code p b (by simp [startsCode]) rfl

theorem servoAngle_speaks : SpeaksPart p b (fun _ => True) (servoAngle p b) := by
  refine (operand_speaks p b _).after fun found _ => ?_
  cases found with
  | some found =>
    dsimp only
    split
    · exact .pure trivial trivial
    · exact .pure trivial trivial
  | none => exact .pure trivial trivial

theorem servoMove_speaks : SpeaksText p b (servoMove p b) :=
  Speaks.ensure.after fun _ _ => (pin_speaks p b _).after fun _ _ =>
    (servoAngle_speaks p b).after fun _ _ => speaks_code p b (by simp [startsCode]) rfl

theorem servoSpeed_speaks : SpeaksText p b (servoSpeed p b) :=
  Speaks.ensure.after fun _ _ => (pin_speaks p b _).after fun _ _ =>
    (clampedValue_speaks p b _ _ _ _).after fun _ _ => speaks_code p b (by simp [startsCode]) rfl

theorem servoRamp_speaks : SpeaksText p b (servoRamp p b) :=
  Speaks.ensure.after fun _ _ => (pin_speaks p b _).after fun _ _ =>
    (clampedValue_speaks p b _ _ _ _).after fun _ _ => speaks_code p b (by simp [startsCode]) rfl

/-! ## Sound -/

theorem soundInit_speaks (id : BlockId) : SpeaksText p b (soundInit p b id) := by
  refine initializer_speaks p b (by decide) ?_
  refine (pin_speaks p b _).after fun _ _ => (pin_speaks p b _).after fun _ _ => ?_
  refine Speaks.ensure.after fun _ _ => Speaks.ensure.after fun _ _ => ?_
  exact Speaks.ensure.after fun _ _ => speaks_empty p b

theorem soundPlay_speaks : SpeaksText p b (soundPlay p b) := by
  have hcall : ∀ {call : String} channel greatest, startsCode call = true →
      SpeaksText p b (soundCall p b call channel greatest) := by
    intro call channel greatest hstart
    refine (clampedValue_speaks p b _ _ _ _).after fun _ _ => speaks_code p b ?_ rfl
    simp only [String.append_assoc]
    exact startsCode_append hstart _
  unfold soundPlay
  split
  · dsimp only
    split
    · exact hcall _ _ rfl
    · exact hcall _ _ rfl
    · exact speaks_code p b (by simp [startsCode]) rfl
    · exact hcall _ _ rfl
  · exact speaks_missing p b (by simp [missingMessages])

theorem cardWarning?_speaks : SpeaksRemark p b (cardWarning? p b) := by
  unfold cardWarning?
  split
  · exact speaks_no_remark p b
  · split
    · exact Speaks.ensure.after fun _ _ => speaks_no_remark p b
    · exact speaks_remark p b (isSentence_ofList rfl rfl (by decide))

theorem FileName.eq_of_short_error {text standard : String} {invalid : FileName.Invalid}
    (h : FileName.short text standard = .error invalid) : invalid = ⟨trimmed text⟩ := by
  unfold FileName.short at h
  split at h
  · cases h
  · exact (Except.error.inj h).symm

theorem wavPlay_speaks (hkind : Kind.ofName? b.type = some .wavPlay) :
    SpeaksText p b (wavPlay p b) := by
  refine Speaks.unless (cardWarning?_speaks p b) ?_
  split
  · next hinvalid =>
    obtain rfl := FileName.eq_of_short_error hinvalid
    exact speaks_saying p b (.inr ⟨⟨rfl, rfl⟩, _, .playedFile hkind⟩)
  · exact Speaks.ensure.after fun _ _ => speaks_code p b (by simp [startsCode]) rfl

theorem wavVolume_speaks : SpeaksText p b (wavVolume p b) :=
  Speaks.ensure.after fun _ _ => (clampedValue_speaks p b _ _ _ _).after fun _ _ =>
    speaks_code p b (by simp [startsCode]) rfl

theorem wavStop_speaks : SpeaksText p b wavStop :=
  Speaks.ensure.after fun _ _ => speaks_fixed p b rfl rfl

/-! ## Files -/

theorem cardInit_speaks (id : BlockId) : SpeaksText p b (cardInit p b id) := by
  refine initializer_speaks p b (by decide) ?_
  refine (pin_speaks p b _).after fun _ _ => (pin_speaks p b _).after fun _ _ => ?_
  refine (pin_speaks p b _).after fun _ _ => (pin_speaks p b _).after fun _ _ => ?_
  exact (Speaks.perform (by nofun)).after fun _ _ => speaks_empty p b

theorem fileWarning?_speaks : SpeaksRemark p b (fileWarning? p b) := by
  refine (cardWarning?_speaks p b).bind fun remark hremark => ?_
  cases remark with
  | some line => exact .pure hremark id
  | none =>
    dsimp only
    split
    · exact Speaks.ensure.after fun _ _ => .pure nofun id
    · exact Speaks.mono (speaks_remark p b (isSentence_ofList rfl rfl (by decide))) (fun _ => id)
        fun _ hnone _ => hnone

theorem fileOpen_speaks (hkind : Kind.ofName? b.type = some .fileOpen) :
    SpeaksText p b (fileOpen p b) := by
  refine Speaks.unless (cardWarning?_speaks p b) ?_
  split
  · next hinvalid =>
    obtain rfl := FileName.eq_of_short_error hinvalid
    exact speaks_saying p b (.inr ⟨⟨rfl, rfl⟩, _, .openedFile hkind⟩)
  · exact Speaks.ensure.after fun _ _ => speaks_code p b (by simp [startsCode]) rfl

theorem fileRead_speaks : SpeaksText p b (fileRead p b) := by
  have hreserve : ∀ name size, SpeaksPart p b (fun _ => True) (reserveRead name size) := by
    intro name size
    unfold reserveRead
    split
    · next n _ =>
      have hset : ∀ d, Action.setLength name (n.toNat + 1) ≠ .diagnose d := nofun
      split
      · exact .perform hset
      · exact .pure trivial trivial
    · exact .pure trivial trivial
  refine Speaks.unless (fileWarning?_speaks p b) ?_
  refine (value_speaks p b _ _).after fun _ _ => (Speaks.perform (by nofun)).after fun _ _ => ?_
  exact (hreserve _ _).after fun _ _ => speaks_code p b (by simp [startsCode]) rfl

theorem fileWrite_speaks : SpeaksText p b (fileWrite p b) := by
  have hlength : ∀ text, SpeaksPart p b (fun _ => True) (textLength text) := by
    intro text
    unfold textLength
    split
    · exact .pure trivial trivial
    · exact Speaks.ensure.after fun _ _ => .pure trivial trivial
  refine Speaks.unless (fileWarning?_speaks p b) ?_
  exact (value_speaks p b _ _).after fun _ _ => (hlength _).after fun _ _ =>
    speaks_code p b (by simp [startsCode]) rfl

theorem fileClose_speaks : SpeaksText p b (fileClose p b) :=
  Speaks.unless (fileWarning?_speaks p b) (speaks_fixed p b rfl rfl)

/-! ## Memory -/

theorem memoryAddress_speaks : SpeaksPart p b (fun _ => True) (memoryAddress p b) :=
  Speaks.ensure.after fun _ _ => (value_speaks p b _ _).after fun _ _ => .pure trivial trivial

theorem writeTo_speaks (address : String) (stored : Stored) :
    SpeaksText p b (writeTo p b address stored) := by
  have hlength : ∀ text, SpeaksPart p b (fun _ => True) (storedLength text) := by
    intro text
    unfold storedLength
    split
    · exact .pure trivial trivial
    · exact Speaks.ensure.after fun _ _ => .pure trivial trivial
  cases stored with
  | number =>
    exact (value_speaks p b _ _).after fun _ _ => speaks_code p b (by simp [startsCode]) rfl
  | byte =>
    exact (operandOrDefault_speaks p b _).after fun _ _ =>
      speaks_code p b (by simp [startsCode]) rfl
  | text =>
    exact (value?_speaks p b _ _).after fun _ _ => (hlength _).after fun _ _ =>
      speaks_code p b (by simp [startsCode]) rfl

theorem memoryWrite_speaks : SpeaksText p b (memoryWrite p b) :=
  (memoryAddress_speaks p b).after fun address _ => writeTo_speaks p b address _

theorem memoryRead_speaks : SpeaksText p b (memoryRead p b) := by
  have hname := startsCode_variableName p b
  refine (memoryAddress_speaks p b).after fun address _ => ?_
  cases Stored.ofField (p.field b "TYPE") with
  | number =>
    exact (Speaks.perform (by nofun)).after fun _ _ =>
      speaks_code p b (startsCode_append (startsCode_append (startsCode_append hname _) _) _) rfl
  | byte =>
    exact (Speaks.perform (by nofun)).after fun _ _ =>
      speaks_code p b (startsCode_append (startsCode_append (startsCode_append hname _) _) _) rfl
  | text =>
    exact (Speaks.perform (by nofun)).after fun _ _ => (Speaks.perform (by nofun)).after fun _ _ =>
      speaks_code p b (by simp [startsCode]) rfl

/-! ## Robots -/

theorem driveInit_speaks (id : BlockId) : SpeaksText p b (driveInit p b id) := by
  refine initializer_speaks p b (by decide) (Speaks.ensure.after fun _ _ => ?_)
  split
  · have hpins : SpeaksPart p b (fun _ => True) (drivePins p b) :=
      (pin_speaks p b _).after fun _ _ => (pin_speaks p b _).after fun _ _ => .ensure
    exact hpins.after fun _ _ => speaks_empty p b
  · exact speaks_empty p b

theorem withDrive_speaks {code : Drive → Recipe String} (h : ∀ drive, SpeaksText p b (code drive)) :
    SpeaksText p b (withDrive p b code) := by
  unfold withDrive
  split
  · exact h _
  · exact speaks_missing p b (by simp [missingMessages])

theorem driveGoto_speaks : SpeaksText p b (driveGoto p b) := by
  refine withDrive_speaks p b fun drive => ?_
  split
  · exact speaks_sentence p b (isSentence_ofList rfl rfl (by decide))
  · exact (value_speaks p b _ _).after fun _ _ => (value_speaks p b _ _).after fun _ _ =>
      speaks_code p b (by simp [startsCode]) rfl

theorem startsCode_speedCall (drive : Drive) : startsCode drive.speedCall = true := by
  cases drive <;> rfl

theorem driveSpeed_speaks : SpeaksText p b (driveSpeed p b) := by
  refine withDrive_speaks p b fun drive => (clampedValue_speaks p b _ _ _ _).after fun _ _ => ?_
  refine (clampedValue_speaks p b _ _ _ _).after fun _ _ => speaks_code p b ?_ rfl
  simp only [String.append_assoc]
  exact startsCode_append (startsCode_speedCall drive) _

theorem driveStop_speaks : SpeaksText p b (driveStop p b) :=
  withDrive_speaks p b fun drive => speaks_code p b (startsCode_append (startsCode_speedCall drive) _) rfl

theorem scribblerWarning?_speaks : SpeaksRemark p b (scribblerWarning? p b) := by
  unfold scribblerWarning?
  split
  · exact Speaks.ensure.after fun _ _ => Speaks.ensure.after fun _ _ => speaks_no_remark p b
  · exact speaks_remark p b (isSentence_ofList rfl rfl (by decide))

theorem onScribbler_speaks {code : Recipe String} (h : SpeaksText p b code) :
    SpeaksText p b (onScribbler p b code) :=
  Speaks.unless (scribblerWarning?_speaks p b) h

theorem fromScribbler_speaks (found : Operand) :
    SpeaksPart p b (fun _ => True) (fromScribbler p b (return found)) := by
  refine (scribblerWarning?_speaks p b).after fun remark _ => ?_
  cases remark with
  | some line => exact .pure trivial trivial
  | none => exact .pure trivial trivial

theorem scribblerDrive_speaks : SpeaksText p b (scribblerDrive p b) :=
  onScribbler_speaks p b <| (clampedValue_speaks p b _ _ _ _).after fun _ _ =>
    (clampedValue_speaks p b _ _ _ _).after fun _ _ =>
    (clampedValue_speaks p b _ _ _ _).after fun _ _ => speaks_code p b (by simp [startsCode]) rfl

theorem scribblerStop_speaks : SpeaksText p b (scribblerStop p b) :=
  onScribbler_speaks p b (speaks_fixed p b rfl rfl)

theorem Color.eq_of_literal_error {text : String} {invalid : Color.Invalid}
    (h : Color.literal text = .error invalid) : invalid = ⟨trimmed text⟩ := by
  unfold Color.literal at h
  split at h
  · cases h
  · exact (Except.error.inj h).symm

theorem scribblerLed_speaks (hkind : Kind.ofName? b.type = some .scribblerLed) :
    SpeaksText p b (scribblerLed p b) := by
  refine onScribbler_speaks p b ?_
  dsimp only
  split
  · exact speaks_code p b (by simp [startsCode]) rfl
  · next hinvalid =>
    obtain rfl := Color.eq_of_literal_error hinvalid
    refine (Speaks.diagnose ?_ ⟨rfl, rfl⟩).bind fun line _ => .pure (.of_end _ rfl) False.elim
    exact .inr ⟨⟨rfl, rfl⟩, _, .color hkind⟩

theorem scribblerPlay_speaks : SpeaksText p b (scribblerPlay p b) :=
  onScribbler_speaks p b <| (clampedValue_speaks p b _ _ _ _).after fun _ _ =>
    (clampedValue_speaks p b _ _ _ _).after fun _ _ => speaks_code p b (by simp [startsCode]) rfl

/-! ## The catalog -/

/-- The code of a block is a text of the user: a comment, or custom code that stands where the block
does. -/
def IsVerbatim (p : Project) (b : Block) : Prop :=
  Kind.ofName? b.type = some .comment ∨
    (Kind.ofName? b.type = some .customCode ∧ customSection? (p.field b "LOCATION") = none)

/-- The statements of an emitter are taken for what they are; of a value only matters what its recipe
says. -/
def EmitterSpeaks (p : Project) (b : Block) : Emitter → Prop
  | .statement code => SpeaksText p b code
  | .value code => SpeaksPart p b (fun _ => True) code

variable {p b}

theorem emitter_speaks (h : ¬IsVerbatim p b) (id : BlockId) {kind : Kind}
    (hkind : Kind.ofName? b.type = some kind) : EmitterSpeaks p b (emitter p id b kind) := by
  cases kind with
  | comment => exact absurd (.inl hkind) h
  | customCode => exact customCode_speaks p b fun hnone => h (.inr ⟨hkind, hnone⟩)
  | pause => exact pause_speaks p b
  | systemCounter => exact .pure trivial trivial
  | branch => exact branch_speaks p b
  | repeatLoop => exact repeatLoop_speaks p b
  | countingLoop => exact countingLoop_speaks p b
  | leaveLoop => exact speaks_fixed p b rfl rfl
  | procedure => exact procedure_speaks p b
  | procedureCall => exact procedureCall_speaks p b
  | newCog => exact newCog_speaks p b
  | number => exact .pure trivial trivial
  | arithmetic => exact arithmetic_speaks p b
  | limit => exact limit_speaks p b
  | stepVariable => exact stepVariable_speaks p b
  | random => exact random_speaks p b
  | boolean => exact .pure trivial trivial
  | compare => exact compare_speaks p b
  | logic => exact logic_speaks p b
  | negate => exact negate_speaks p b
  | text => exact .pure trivial trivial
  | readVariable => exact .pure trivial trivial
  | assign => exact assign_speaks p b
  | arrayInit => exact arrayInit_speaks p b
  | arrayGet => exact arrayGet_speaks p b
  | arraySet => exact arraySet_speaks p b
  | arrayFill => exact arrayFill_speaks p b
  | arrayClear => exact arrayClear_speaks p b
  | print => exact print_speaks p b
  | printValue => exact printValue_speaks p b
  | printNewline => exact speaks_fixed p b rfl rfl
  | makePin => exact makePin_speaks p b
  | makePinInput => exact makePin_speaks p b
  | checkPin => exact checkPin_speaks p b
  | checkPinInput => exact checkPin_speaks p b
  | setPins => exact setPins_speaks p b
  | pwmStart => exact pwmStart_speaks p b id
  | pwmSet => exact pwmSet_speaks p b
  | pwmStop => exact speaks_fixed p b rfl rfl
  | frequencyOut => exact frequencyOut_speaks p b
  | soundInit => exact soundInit_speaks p b id
  | soundPlay => exact soundPlay_speaks p b
  | wavPlay => exact wavPlay_speaks p b hkind
  | wavVolume => exact wavVolume_speaks p b
  | wavStop => exact wavStop_speaks p b
  | cardInit => exact cardInit_speaks p b id
  | fileOpen => exact fileOpen_speaks p b hkind
  | fileRead => exact fileRead_speaks p b
  | fileWrite => exact fileWrite_speaks p b
  | fileClose => exact fileClose_speaks p b
  | servoMove => exact servoMove_speaks p b
  | servoSpeed => exact servoSpeed_speaks p b
  | servoRamp => exact servoRamp_speaks p b
  | memoryWrite => exact memoryWrite_speaks p b
  | memoryRead => exact memoryRead_speaks p b
  | driveInit => exact driveInit_speaks p b id
  | driveGoto => exact driveGoto_speaks p b
  | driveSpeed => exact driveSpeed_speaks p b
  | driveStop => exact driveStop_speaks p b
  | scribblerDrive => exact scribblerDrive_speaks p b
  | scribblerStop => exact scribblerStop_speaks p b
  | scribblerLed => exact scribblerLed_speaks p b hkind
  | scribblerPlay => exact scribblerPlay_speaks p b
  | scribblerLine => exact fromScribbler_speaks p b _
  | scribblerObstacle => exact fromScribbler_speaks p b _

end Emit

namespace Fragment

/-- Statements end with their line. -/
def IsTight : Fragment → Prop
  | .statement text => Text.IsTight text
  | .expression _ => True

/-- Statements are not taken for a diagnostic. -/
def IsQuiet : Fragment → Prop
  | .statement text => Comment.isDiagnostic text = false
  | .expression _ => True

end Fragment

namespace Emit

open Recipe

variable {p : Project} {b : Block}

/-- A text of the user is all that its recipe yields. -/
theorem recipe_of_verbatim (h : IsVerbatim p b) (id : BlockId) :
    ∃ text, recipe p id b = pure (.statement text) := by
  rcases h with hkind | ⟨hkind, hsection⟩
  · exact ⟨_, recipe_of_kind hkind id⟩
  · rw [recipe_of_kind hkind]
    show ∃ text, (Emitter.statement (customCode p b)).fragment = pure (.statement text)
    unfold customCode
    rw [hsection]
    exact ⟨_, rfl⟩

/-- Every recipe but one whose code is a text of the user speaks up. -/
theorem recipe_speaks (h : ¬IsVerbatim p b) (id : BlockId) :
    (recipe p id b).Speaks (Says p b) (IsOwn b) Fragment.IsTight Fragment.IsQuiet := by
  have hstatement : ∀ {code : Recipe String}, SpeaksText p b code →
      (Emitter.statement code).fragment.Speaks (Says p b) (IsOwn b) Fragment.IsTight
        Fragment.IsQuiet :=
    fun hcode => hcode.bind fun text htext => .pure htext fun hquiet => hquiet
  cases hkind : Kind.ofName? b.type with
  | none =>
    rw [recipe_of_unknown hkind]
    exact hstatement (speaks_saying p b (.inr ⟨⟨rfl, rfl⟩, _, .type hkind⟩))
  | some kind =>
    rw [recipe_of_kind hkind]
    have hspeaks := emitter_speaks h id hkind
    cases hemitter : emitter p id b kind with
    | statement code =>
      rw [hemitter] at hspeaks
      exact hstatement hspeaks
    | value code =>
      rw [hemitter] at hspeaks
      exact Speaks.after hspeaks fun _ _ => .pure trivial trivial

end Emit

end BlockCompiler
