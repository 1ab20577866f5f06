import BlockCompiler.Proofs.Emission.Variable
import BlockCompiler.Proofs.Emit.Buffer

set_option autoImplicit false

/-! # Buffers

A variable that some block fills with text is declared as a buffer that has room for it. Room only
grows, and a type once given stays until another one is given; so this fails in one case alone: some
block that takes part gives the variable the type of integers, as a counting loop over the variable
does, or a read of a number into it. -/

namespace BlockCompiler

/-! ## What actions keep -/

namespace Action

variable {c : Context} {name : String}

/-- A variable keeps its type until it is given another one. -/
theorem type_perform {type : CType} (h : c.types.get? name = some type) {action : Action}
    (haction : ∀ type', action ≠ .setType name type') :
    (action.perform c).2.types.get? name = some type := by
  cases action with
  | register part key text => cases part <;> exact h
  | inferType name' text =>
    cases htype : c.types.get? name' with
    | some _ => rwa [perform, htype]
    | none =>
      have hne : name ≠ name' := by
        rintro rfl
        rw [h] at htype
        cases htype
      rw [perform, htype]
      simpa [Ledger.get?_put, hne] using h
  | setType name' type' =>
    have hne : name ≠ name' := by
      rintro rfl
      exact haction type' rfl
    simpa [perform, Ledger.get?_put, hne] using h
  | _ => exact h

/-- Room only grows. -/
theorem room_perform (c : Context) (action : Action) (name : String) :
    (c.lengths.get? name).getD 0 ≤ ((action.perform c).2.lengths.get? name).getD 0 := by
  cases action with
  | register part key text => cases part <;> exact Nat.le_refl _
  | inferType name' text => cases htype : c.types.get? name' <;> simp [perform, htype]
  | setLength name' length =>
    by_cases hname : name = name'
    · subst hname
      simp [perform, Ledger.get?_put]
    · simp [perform, Ledger.get?_put, hname]
  | _ => exact Nat.le_refl _

theorem type_of_inferType {text : String} {type : CType}
    (h : (perform c (.inferType name text)).1 = type) :
    (perform c (.inferType name text)).2.types.get? name = some type := by
  cases htype : c.types.get? name with
  | some type' =>
    rw [perform, htype] at h ⊢
    exact htype.trans (congrArg some h)
  | none =>
    rw [perform, htype] at h ⊢
    subst h
    simp [Ledger.get?_put]

end Action

/-- A type is given to integers or to texts. -/
theorem Emit.givenType?_eq {p : Project} {b : Block} {kind : Kind} {type : CType}
    (h : Emit.givenType? p b kind = some type) : type = .int ∨ type = .char := by
  cases kind with
  | countingLoop => exact .inl (Option.some_inj.1 h).symm
  | fileRead => exact .inr (Option.some_inj.1 h).symm
  | memoryRead =>
    obtain rfl := Option.some_inj.1 h
    cases Stored.ofField (p.field b "TYPE") with
    | text => exact .inr rfl
    | number | byte => exact .inl rfl
  | assign =>
    cases hbuffer : Emit.isBuffer p (Emit.variableName p b) with
    | true => exact .inr (Option.some_inj.1 ((if_pos hbuffer).symm.trans h)).symm
    | false => cases (if_neg (Bool.eq_false_iff.1 hbuffer)).symm.trans h
  | _ => cases h

/-- The steps of a path fall into those in front of an action, the action, and those behind it. -/
theorem Emission.Steps.exists_of_did {law : Law} {active : List BlockId} {es : List Event}
    {s t : Emission} {action : Action} {answer : action.Answer} (h : Steps law active es s t)
    (hmem : .did action answer ∈ es) : ∃ u before after, es = before ++ .did action answer :: after ∧
      (u.perform action).1 = answer ∧ Steps law active before s u ∧
      Steps law active after (u.perform action).2 t := by
  induction h with
  | nil s => cases hmem
  | @did s t es action' h ih =>
    rcases List.mem_cons.1 hmem with heq | hmem
    · injection heq with haction hanswer
      subst haction
      exact ⟨s, [], es, by rw [eq_of_heq hanswer]; rfl, (eq_of_heq hanswer).symm, .nil s, h⟩
    · obtain ⟨u, before, after, rfl, hanswer, hbefore, hafter⟩ := ih hmem
      exact ⟨u, _, after, rfl, hanswer, .did action' hbefore, hafter⟩
  | made hactive hlaw h ih =>
    obtain ⟨u, before, after, rfl, hanswer, hbefore, hafter⟩ :=
      ih ((List.mem_cons.1 hmem).resolve_left nofun)
    exact ⟨u, _, after, rfl, hanswer, .made hactive hlaw hbefore, hafter⟩
  | drew h ih =>
    obtain ⟨u, before, after, rfl, hanswer, hbefore, hafter⟩ :=
      ih ((List.mem_cons.1 hmem).resolve_left nofun)
    exact ⟨u, _, after, rfl, hanswer, .drew hbefore, hafter⟩

namespace Project

variable {p : Project}

/-! ## Types and room -/

/-- A block that was started gives a variable the type of integers: a counting loop over it, or a read
of a number into it. -/
def Counts (p : Project) (s : Emission) (name : String) : Prop :=
  ∃ id ∈ s.started, ∃ b kind, p.workspace.block? id = some b ∧ Kind.ofName? b.type = some kind ∧
    Emit.givenType? p b kind = some .int ∧ Emit.variableName p b = name

/-- A variable is a buffer, unless some block counts with it. -/
def HoldsText (p : Project) (s : Emission) (name : String) : Prop :=
  s.context.types.get? name = some .char ∨
    (s.context.types.get? name = some .int ∧ p.Counts s name)

/-- A variable is a buffer with room for as many characters, unless some block counts with it. -/
structure HasRoom (p : Project) (s : Emission) (name : String) (room : Nat) : Prop where
  holdsText : p.HoldsText s name
  room_le : room ≤ (s.context.lengths.get? name).getD 0

/-- Of what variables are good for in state `s`, nothing is lost up to state `t`. -/
structure Retains (p : Project) (s t : Emission) : Prop where
  started : s.started ⊆ t.started
  room : ∀ name, (s.context.lengths.get? name).getD 0 ≤ (t.context.lengths.get? name).getD 0
  holdsText : ∀ name, p.HoldsText s name → p.HoldsText t name

variable {s t u : Emission} {name : String} {room : Nat}

theorem Retains.refl (s : Emission) : p.Retains s s :=
  ⟨List.Subset.refl _, fun _ => Nat.le_refl _, fun _ => id⟩

theorem Retains.trans (h : p.Retains s t) (h' : p.Retains t u) : p.Retains s u :=
  ⟨List.Subset.trans h.started h'.started, fun name => (h.room name).trans (h'.room name),
    fun name hname => h'.holdsText name (h.holdsText name hname)⟩

theorem Retains.hasRoom (h : p.Retains s t) (hs : p.HasRoom s name room) : p.HasRoom t name room :=
  ⟨h.holdsText name hs.holdsText, hs.room_le.trans (h.room name)⟩

theorem Counts.mono (h : p.Counts s name) (hstarted : s.started ⊆ t.started) : p.Counts t name := by
  obtain ⟨id, hid, hcounts⟩ := h
  exact ⟨id, hstarted hid, hcounts⟩

/-- All that counts is what is registered and started. -/
theorem Retains.of_eq (hcontext : t.context = s.context) (hstarted : t.started = s.started) :
    p.Retains s t := by
  refine ⟨hstarted ▸ List.Subset.refl _, fun name => hcontext ▸ Nat.le_refl _, fun name hname => ?_⟩
  unfold HoldsText Counts at *
  rwa [hcontext, hstarted]

theorem Retains.enter (s : Emission) (id : BlockId) : p.Retains s (s.enter id) where
  started := List.subset_cons_self _ _
  room _ := Nat.le_refl _
  holdsText _ := Or.imp_right (And.imp_right fun h => h.mono (List.subset_cons_self _ _))

/-- An action retains all if it gives no type but that of a buffer, or of integers to a variable that
some block counts with. -/
theorem Retains.perform {action : Action} (haction : ∀ name type, action = .setType name type →
    type = .char ∨ (type = .int ∧ p.Counts s name)) : p.Retains s (s.perform action).2 where
  started := List.Subset.refl _
  room := Action.room_perform s.context action
  holdsText name hname := by
    by_cases hgiven : ∃ type, action = .setType name type
    · obtain ⟨type, rfl⟩ := hgiven
      have htype : (s.perform (.setType name type)).2.context.types.get? name = some type := by
        simp [Emission.perform, Action.perform, Ledger.get?_put]
      rcases haction name type rfl with rfl | ⟨rfl, hcounts⟩
      · exact .inl htype
      · exact .inr ⟨htype, hcounts⟩
    · have hkept : ∀ type, s.context.types.get? name = some type →
          (s.perform action).2.context.types.get? name = some type := fun _ htype =>
        Action.type_perform htype fun type heq => hgiven ⟨type, heq⟩
      exact hname.imp (hkept _) (And.imp_left (hkept _))

/-- So does an action of a block that was started. -/
theorem Retains.perform_of_allows {id : BlockId} {b : Block} {action : Action}
    (hb : p.workspace.block? id = some b) (hid : id ∈ s.started) (h : p.Allows b action) :
    p.Retains s (s.perform action).2 := by
  refine .perform ?_
  rintro name type rfl
  unfold Allows at h
  split at h
  · next kind hkind =>
    cases h with
    | setType hgiven =>
      rcases Emit.givenType?_eq hgiven with rfl | rfl
      · exact .inr ⟨rfl, id, hid, b, kind, hb, hkind, hgiven, rfl⟩
      · exact .inl rfl
  · obtain ⟨d, heq, -⟩ := h
    cases heq

/-- So do the steps along a path that a started block takes. -/
theorem Retains.of_steps {law : Law} {active : List BlockId} {es : List Event} {id : BlockId}
    {b : Block} (hlaw : ∀ id s fragment t, law id s fragment t → p.Retains s t)
    (h : Emission.Steps law active es s t) (hb : p.workspace.block? id = some b)
    (hid : id ∈ s.started) (hallowed : ∀ action ∈ Event.actions es, p.Allows b action) :
    p.Retains s t := by
  refine h.invariant (I := fun u => p.Retains s u) ?_ ?_ ?_ (.refl s)
  · exact fun action haction u hu =>
      hu.trans (.perform_of_allows hb (hu.started hid) (hallowed action haction))
  · exact fun _ _ u _ v _ huv hu => hu.trans (hlaw _ _ _ _ huv)
  · exact fun _ hu => hu.trans (.of_eq rfl rfl)

/-! ## Fills -/

/-- What a path asks for is there behind it. -/
theorem hasRoom_of_reserves {law : Law} {active : List BlockId} {es : List Event} {id : BlockId}
    {b : Block} (hlaw : ∀ id s fragment t, law id s fragment t → p.Retains s t)
    (h : Emission.Steps law active es s t) (hb : p.workspace.block? id = some b)
    (hid : id ∈ s.started) (hallowed : ∀ action ∈ Event.actions es, p.Allows b action)
    (hreserves : Emit.Reserves name room es) : p.HasRoom t name room := by
  -- what an action brings about lasts
  have hlast : ∀ {action : Action} {answer : action.Answer}, .did action answer ∈ es →
      ∃ u : Emission, (u.perform action).1 = answer ∧ p.Retains (u.perform action).2 t := by
    intro action answer hmem
    obtain ⟨u, before, after, rfl, hanswer, hbefore, hafter⟩ := h.exists_of_did hmem
    rw [Event.actions_append] at hallowed
    have hu : p.Retains s u := .of_steps hlaw hbefore hb hid fun action haction =>
      hallowed action (List.mem_append_left _ haction)
    refine ⟨u, hanswer, .of_steps hlaw hafter hb (hu.started hid) fun action haction => ?_⟩
    exact hallowed action (List.mem_append_right _ (List.mem_cons_of_mem _ haction))
  constructor
  · rcases hreserves.typed with hset | ⟨text, hinfer⟩
    · obtain ⟨u, -, hu⟩ := hlast hset
      refine hu.holdsText name (.inl ?_)
      simp [Emission.perform, Action.perform, Ledger.get?_put]
    · obtain ⟨u, hanswer, hu⟩ := hlast hinfer
      refine hu.holdsText name (.inl ?_)
      exact Action.type_of_inferType hanswer
  · rcases hreserves.sized with rfl | ⟨length, hlength, hset⟩
    · exact Nat.zero_le _
    · obtain ⟨u, -, hu⟩ := hlast hset
      refine (hlength.trans ?_).trans (hu.room name)
      simp [Emission.perform, Action.perform, Ledger.get?_put]

/-- All variables that code on record fills have room, unless some block counts with them. -/
def AllHaveRoom (p : Project) (s : Emission) : Prop :=
  ∀ id code b kind room, (id, .statement code) ∈ s.made → p.workspace.block? id = some b →
    Kind.ofName? b.type = some kind → Emit.Fills (Emit.variableName p b) kind code room →
    p.HasRoom s (Emit.variableName p b) room

/-- The code of a block retains what variables are good for, and the variables that it fills have
room. -/
def KeepsRoom (p : Project) : Law := fun _ s fragment t =>
  fragment.IsIndex ∧ p.Retains s t ∧ (p.AllHaveRoom s → p.AllHaveRoom t)

theorem AllHaveRoom.retain (h : p.AllHaveRoom s) (hretains : p.Retains s t) (hmade : t.made = s.made) :
    p.AllHaveRoom t := by
  intro id code b kind room hmem hb hkind hfills
  exact hretains.hasRoom (h id code b kind room (hmade ▸ hmem) hb hkind hfills)

theorem emit_keepsRoom (id : BlockId) (s : Emission) (hs : s.Nested p.workspace) :
    p.KeepsRoom id s (p.emit id s).1 (p.emit id s).2 := by
  refine (emit_induction p.KeepsRoom ?_ ?_ ?_ id s hs).2
  · exact fun _ s _ => ⟨trivial, .refl s, fun hroom => hroom⟩
  · intro id b s _ _
    have hretains : p.Retains s (s.perform (.diagnose (selfConnectedWarning b))).2 := .perform nofun
    exact ⟨trivial, hretains, fun hroom => hroom.retain hretains rfl⟩
  · intro id b s es fragment t hb _ htook hsteps
    have hlaw : ∀ id s fragment t, p.KeepsRoom id s fragment t → p.Retains s t :=
      fun _ _ _ _ h => h.2.1
    have hindexes : ∀ j g, .made j g ∈ es → g.IsIndex := fun j g hmem =>
      hsteps.forall_made (P := fun _ g => g.IsIndex) (fun _ _ _ _ h => h.1) hmem
    have hretains : p.Retains s t :=
      (Retains.enter s id).trans (.of_steps hlaw hsteps hb List.mem_cons_self htook.allowed)
    have hleave : p.Retains t (t.leave id fragment) := .of_eq rfl rfl
    refine ⟨Emit.recipe_isIndex p b id es fragment htook.path hindexes, hretains.trans hleave,
      fun hroom => ?_⟩
    have ht : p.AllHaveRoom t := by
      refine (hsteps.invariant (I := fun u => id ∈ u.started ∧ p.AllHaveRoom u) ?_ ?_ ?_ ?_).2
      · exact fun action haction u hu => ⟨hu.1, hu.2.retain
          (.perform_of_allows hb hu.1 (htook.allowed action haction)) rfl⟩
      · exact fun _ _ u _ v _ huv hu => ⟨huv.2.1.started hu.1, huv.2.2 hu.2⟩
      · exact fun _ hu => ⟨hu.1, hu.2.retain (.of_eq rfl rfl) rfl⟩
      · exact ⟨List.mem_cons_self, hroom.retain (.enter s id) rfl⟩
    intro x code b' kind room hmem hb' hkind hfills
    refine hleave.hasRoom ?_
    rcases List.mem_cons.1 hmem with heq | hmem
    · obtain ⟨rfl, rfl⟩ := Prod.mk.inj heq
      obtain rfl := Option.some_inj.1 (hb.symm.trans hb')
      have hreserves := Emit.reserves_of_fills hkind htook.path htook.closed hindexes hfills
      exact hasRoom_of_reserves hlaw hsteps hb List.mem_cons_self htook.allowed hreserves
    · exact ht x code b' kind room hmem hb' hkind hfills

theorem final_allHaveRoom : p.AllHaveRoom p.final := by
  obtain ⟨es, -, hsteps, -, -, hallowed⟩ := final_steps emit_keepsRoom
  refine hsteps.invariant ?_ (fun _ _ _ _ _ _ hlaw => hlaw.2.2)
    (fun _ hu => hu.retain (.of_eq rfl rfl) rfl) fun _ _ _ _ _ hmem => nomatch hmem
  intro action haction u hu
  have hretains : p.Retains u (u.perform action).2 := by
    refine .perform ?_
    rintro name type rfl
    cases hallowed _ haction
  exact hu.retain hretains rfl

/-! ## Declarations of buffers -/

/-- A typed variable is declared with its type. -/
theorem hasGlobal_of_type {name : String} {type : CType}
    (htype : p.final.context.types.get? name = some type) :
    p.HasGlobal (declaration name type (p.final.context.lengths.get? name)) := by
  have hentry := (Ledger.get?_eq_some_iff final_isTyped.typeKeys).1 htype
  refine lists_of_mem (mem_parts_globals _ _) (List.mem_append_right _ (List.mem_append_left _ ?_))
  exact List.mem_map.2 ⟨_, hentry, rfl⟩

/-- A variable that a block fills with text is declared as a buffer with room for it, unless some block
that takes part counts with the variable; then it may be declared as an integer instead. -/
theorem declares_buffer_or_counter {id : BlockId} {b : Block} {kind : Kind} {code : String}
    {room : Nat} (hb : p.workspace.block? id = some b) (hkind : Kind.ofName? b.type = some kind)
    (hcode : p.codeOf? id = some (.statement code))
    (hfills : Emit.Fills (Emit.variableName p b) kind code room) :
    (∃ length, room ≤ length ∧
      p.HasGlobal ("char " ++ Emit.variableName p b ++ "[" ++ toString length ++ "];")) ∨
    (p.HasGlobal ("int " ++ Emit.variableName p b ++ ";") ∧
      p.Counts p.final (Emit.variableName p b)) := by
  have hroom := final_allHaveRoom id code b kind room (mem_made_of_codeOf? hcode) hb hkind hfills
  rcases hroom.holdsText with hchar | ⟨hint, hcounts⟩
  · have hle : room ≤ (p.final.context.lengths.get? (Emit.variableName p b)).getD standardLength := by
      refine hroom.room_le.trans ?_
      cases p.final.context.lengths.get? (Emit.variableName p b) with
      | some length => exact Nat.le_refl _
      | none => exact Nat.zero_le _
    have hdeclared := hasGlobal_of_type hchar
    rw [declaration] at hdeclared
    exact .inl ⟨_, hle, hdeclared⟩
  · have hdeclared := hasGlobal_of_type hint
    rw [declaration] at hdeclared
    exact .inr ⟨hdeclared, hcounts⟩

/-- A program that reads a text from a file into a variable, and then a number from the memory into the
same variable. -/
def retyped : Project where
  workspace :=
    { blocks := #[
        { id := "sd_open#0", type := "sd_open", next := some 1 },
        { id := "sd_read#1", type := "sd_read", fields := ⟨[("VAR", "x")]⟩, next := some 2 },
        { id := "eeprom_read#2", type := "eeprom_read", fields := ⟨[("VAR", "x")]⟩ }]
      top := [0]
      index := [0, 1, 2]
      variableNames := ["x"] }

/-- The number counts, and the text is read into an integer. -/
theorem declares_counter_retyped :
    retyped.codeOf? 1 = some (.statement "fread(x, 1, 10, fp);\n") ∧
      retyped.final.context.types.get? "x" = some .int ∧
      ((∃ length, 11 ≤ length ∧ retyped.HasGlobal ("char x[" ++ toString length ++ "];")) ∨
        (retyped.HasGlobal "int x;" ∧ retyped.Counts retyped.final "x")) := by
  have hcode : retyped.codeOf? 1 = some (.statement "fread(x, 1, 10, fp);\n") := by decide +kernel
  have hname : Emit.variableName retyped retyped.workspace.blocks[1] = "x" := by decide +kernel
  have hfills : Emit.Fills (Emit.variableName retyped retyped.workspace.blocks[1]) .fileRead
      "fread(x, 1, 10, fp);\n" 11 := by
    rw [hname]
    exact .read 10 (by decide)
  have hdeclares := declares_buffer_or_counter rfl (by decide) hcode hfills
  rw [hname] at hdeclares
  exact ⟨hcode, by decide +kernel, hdeclares⟩

end Project

end BlockCompiler
