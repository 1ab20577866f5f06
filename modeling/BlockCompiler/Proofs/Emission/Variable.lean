import BlockCompiler.Proofs.Emission.Declaration
import BlockCompiler.Proofs.Identifier

set_option autoImplicit false

/-! # Declarations of variables

A variable of the editor is declared in one of three ways: as an array, if some initializer of its
name is run; else with the type that the blocks gave it; else as an integer. Names that become the same
identifier share one declaration. So every variable is declared, and none of them twice. -/

namespace BlockCompiler

open Identifier

/-- A name is the identifier of some name. -/
def IsIdentifier (name : String) : Prop := ∃ raw, name = ofName raw

theorem Emit.ofDeclaration_variable {name : String} (hname : IsIdentifier name) (type : CType)
    (length? : Option Nat) : ofDeclaration (Project.declaration name type length?) = name := by
  obtain ⟨raw, rfl⟩ := hname
  have hword := (Expression.isName_ofName raw).word
  cases type with
  | int => exact ofDeclaration_eq (c := ' ') (d := ';') (by decide) rfl (by decide) hword rfl (by decide)
  | float => exact ofDeclaration_eq (c := ' ') (d := ';') (by decide) rfl (by decide) hword rfl (by decide)
  | charPointer =>
    exact ofDeclaration_eq (c := '*') (d := ';') (by decide) rfl (by decide) hword rfl (by decide)
  | char =>
    rw [Project.declaration, String.append_assoc, String.append_assoc]
    exact ofDeclaration_eq (c := ' ') (d := '[') (by decide) rfl (by decide) hword
      (by rw [String.toList_append]; rfl) (by decide)

/-! ## Typed variables -/

/-- Different identifiers have a type. -/
structure Context.IsTyped (c : Context) : Prop where
  types : ∀ name ∈ c.types.keys, IsIdentifier name
  typeKeys : c.types.keys.Nodup

/-- An action types identifiers only. -/
def Action.TypesIdentifier : Action → Prop
  | .inferType name _ | .setType name _ => IsIdentifier name
  | _ => True

theorem Context.IsTyped.put {c : Context} (h : c.IsTyped) {name : String} (hname : IsIdentifier name)
    (type : CType) : Context.IsTyped { c with types := c.types.put name type } where
  types k hk := (Ledger.mem_keys_put hk).elim (h.types k) fun heq => heq ▸ hname
  typeKeys := Ledger.keys_nodup_put _ _ _ h.typeKeys

theorem Action.TypesIdentifier.perform {c : Context} (h : c.IsTyped) {action : Action}
    (haction : action.TypesIdentifier) : (action.perform c).2.IsTyped := by
  cases action with
  | register part key text => cases part <;> exact ⟨h.types, h.typeKeys⟩
  | inferType name text =>
    cases htype : c.types.get? name with
    | some type => simpa only [Action.perform, htype] using h
    | none => simpa only [Action.perform, htype] using h.put haction _
  | setType name type => exact h.put haction type
  | _ => exact ⟨h.types, h.typeKeys⟩

theorem Emit.Allowed.typesIdentifier {p : Project} {b : Block} {kind : Kind} {action : Action}
    (h : Emit.Allowed p b kind action) : action.TypesIdentifier := by
  cases h with
  | inferType | setType => exact ⟨_, rfl⟩
  | _ => trivial

namespace Project

variable {p : Project}

/-- The code of a block keeps different identifiers typed. -/
def KeepsTyped : Law := fun _ s _ t => s.context.IsTyped → t.context.IsTyped

theorem emit_keepsTyped (id : BlockId) (s : Emission) (hs : s.Nested p.workspace) :
    KeepsTyped id s (p.emit id s).1 (p.emit id s).2 := by
  refine (emit_induction KeepsTyped ?_ ?_ ?_ id s hs).2
  · exact fun _ _ _ htyped => htyped
  · intro id b s _ _ htyped
    have hwarning : (Action.diagnose (selfConnectedWarning b)).TypesIdentifier := trivial
    exact hwarning.perform htyped
  · intro id b s es fragment t hb _ htook hsteps htyped
    refine hsteps.invariant (I := fun u => u.context.IsTyped) ?_
      (fun _ _ _ _ _ _ hlaw hu => hlaw hu) (fun _ hu => hu) htyped
    intro action haction u hu
    have hallowed := htook.allowed action haction
    unfold Allows at hallowed
    split at hallowed
    · exact hallowed.typesIdentifier.perform hu
    · obtain ⟨d, rfl, -⟩ := hallowed
      have hdiagnose : (Action.diagnose d).TypesIdentifier := trivial
      exact hdiagnose.perform hu

theorem final_isTyped : p.final.context.IsTyped := by
  obtain ⟨es, -, hsteps, -, -, hallowed⟩ := final_steps emit_keepsTyped
  refine hsteps.invariant (I := fun u => u.context.IsTyped) ?_
    (fun _ _ _ _ _ _ hlaw hu => hlaw hu) (fun _ hu => hu) ⟨nofun, List.nodup_nil⟩
  intro action haction u hu
  have hidentifier : action.TypesIdentifier := by
    cases hallowed action haction <;> trivial
  exact hidentifier.perform hu

/-! ## Untyped variables -/

/-- The variables without a type are different identifiers, none of which has a type or is an
array. -/
theorem untypedNames_spec (c : Context) (names : List String) (taken : List String) :
    (untypedNames c taken names).Nodup ∧ ∀ name ∈ untypedNames c taken names,
      IsIdentifier name ∧ name ∉ taken ∧ c.globals.contains (Emit.arrayKey name) = false := by
  induction names generalizing taken with
  | nil => exact ⟨List.nodup_nil, nofun⟩
  | cons declared rest ih =>
    unfold untypedNames
    dsimp only
    split
    · exact ih taken
    · next hfree =>
      obtain ⟨harray, htaken⟩ := Bool.or_eq_false_iff.1 (Bool.eq_false_iff.2 hfree)
      obtain ⟨hnodup, hrest⟩ := ih (ofName declared :: taken)
      refine ⟨List.nodup_cons.2 ⟨fun hmem => ?_, hnodup⟩, fun name hname => ?_⟩
      · exact (hrest _ hmem).2.1 List.mem_cons_self
      · rcases List.mem_cons.1 hname with rfl | hname
        · refine ⟨⟨declared, rfl⟩, fun hmem => ?_, harray⟩
          rw [List.contains_iff_mem.2 hmem] at htaken
          cases htaken
        · obtain ⟨hidentifier, hnot, hcontains⟩ := hrest name hname
          exact ⟨hidentifier, fun hmem => hnot (List.mem_cons_of_mem _ hmem), hcontains⟩

/-- No variable is left out: it is an array, or taken already, or without a type. -/
theorem untypedNames_complete (c : Context) {names : List String} (taken : List String)
    {raw : String} (hraw : raw ∈ names) : c.globals.contains (Emit.arrayKey (ofName raw)) = true ∨
      ofName raw ∈ taken ∨ ofName raw ∈ untypedNames c taken names := by
  induction names generalizing taken with
  | nil => cases hraw
  | cons declared rest ih =>
    unfold untypedNames
    dsimp only
    split
    · next hgone =>
      rcases List.mem_cons.1 hraw with rfl | hraw
      · rcases Bool.or_eq_true_iff.1 hgone with harray | htaken
        · exact .inl harray
        · exact .inr (.inl (List.contains_iff_mem.1 htaken))
      · exact ih taken hraw
    · rcases List.mem_cons.1 hraw with rfl | hraw
      · exact .inr (.inr List.mem_cons_self)
      · rcases ih (ofName declared :: taken) hraw with harray | htaken | hnone
        · exact .inl harray
        · rcases List.mem_cons.1 htaken with heq | htaken
          · rw [heq]
            exact .inr (.inr List.mem_cons_self)
          · exact .inr (.inl htaken)
        · exact .inr (.inr (List.mem_cons_of_mem _ hnone))

/-! ## All variables -/

theorem map_variableDeclarations :
    (p.variableDeclarations p.final.context).map ofDeclaration = p.final.context.types.keys ++
      untypedNames p.final.context p.final.context.types.keys p.workspace.variableNames := by
  rw [variableDeclarations, List.map_append, List.map_map, List.map_map]
  refine congrArg₂ _ (List.map_congr_left fun entry hentry => ?_) ?_
  · exact Emit.ofDeclaration_variable (final_isTyped.types _ (List.mem_map_of_mem hentry)) _ _
  · refine (List.map_congr_left fun name hname => ?_).trans (List.map_id _)
    exact Emit.ofDeclaration_variable ((untypedNames_spec _ _ _).2 name hname).1 _ _

/-- Variables have different names. -/
theorem nodup_variables :
    ((p.variableDeclarations p.final.context).map ofDeclaration).Nodup := by
  rw [map_variableDeclarations]
  obtain ⟨hnodup, huntyped⟩ := untypedNames_spec p.final.context p.workspace.variableNames
    p.final.context.types.keys
  refine List.nodup_append.2 ⟨final_isTyped.typeKeys, hnodup, fun typed htyped name hname heq => ?_⟩
  exact (huntyped name hname).2.1 (heq ▸ htyped)

/-- The ways in which a program declares a name: as the array of the first initializer that was
started, with the type that the blocks gave it, or as an integer. -/
inductive DeclaresAs (p : Project) (name : String) : String → Prop
  | array (size : Int) : p.final.context.text? .globals (Emit.arrayKey name) =
      some ("int " ++ name ++ "[" ++ toString size ++ "];") →
    DeclaresAs p name ("int " ++ name ++ "[" ++ toString size ++ "];")
  | buffer : p.final.context.types.get? name = some .char →
    DeclaresAs p name ("char " ++ name ++
      "[" ++ toString ((p.final.context.lengths.get? name).getD 64) ++ "];")
  | pointer : p.final.context.types.get? name = some .charPointer →
    DeclaresAs p name ("char *" ++ name ++ ";")
  | int : p.final.context.types.get? name = some .int → DeclaresAs p name ("int " ++ name ++ ";")
  | float : p.final.context.types.get? name = some .float →
    DeclaresAs p name ("float " ++ name ++ ";")
  | untyped : p.final.context.types.get? name = none →
    p.final.context.has .globals (Emit.arrayKey name) = false →
    DeclaresAs p name ("int " ++ name ++ ";")

/-- The declaration of a typed variable is that of its type. -/
theorem DeclaresAs.typed {name : String} {type : CType}
    (h : p.final.context.types.get? name = some type) :
    p.DeclaresAs name (declaration name type (p.final.context.lengths.get? name)) := by
  cases type with
  | int => exact .int h
  | float => exact .float h
  | char => exact .buffer h
  | charPointer => exact .pointer h

/-- A variable of the editor is declared in the section of global variables. -/
theorem exists_declaresAs {raw : String} (hraw : raw ∈ p.workspace.variableNames) :
    ∃ text, p.DeclaresAs (ofName raw) text ∧
      p.Lists "Global Variables and Objects" "\n" text := by
  have hdeclaration : ∀ text ∈ p.variableDeclarations p.final.context,
      p.Lists "Global Variables and Objects" "\n" text := fun text htext =>
    lists_of_mem (mem_parts_globals _ _) (List.mem_append_right _ htext)
  rcases untypedNames_complete p.final.context p.final.context.types.keys hraw with
    harray | htyped | huntyped
  · -- an array has the declaration of the first initializer that was started
    obtain ⟨text, htext⟩ := Option.isSome_iff_exists.1 harray
    replace htext : p.final.context.text? .globals (Emit.arrayKey (ofName raw)) = some text := htext
    obtain ⟨size, -, hsize⟩ := Option.map_eq_some_iff.1 ((final_isDeclared _).symm.trans htext)
    subst hsize
    exact ⟨_, .array size htext, hasGlobal_of_text? htext⟩
  · obtain ⟨⟨name, type⟩, hentry, hname⟩ := List.mem_map.1 htyped
    obtain rfl : name = ofName raw := hname
    have htype := (Ledger.get?_eq_some_iff final_isTyped.typeKeys).2 hentry
    refine ⟨_, .typed htype, hdeclaration _ (List.mem_append_left _ ?_)⟩
    exact List.mem_map.2 ⟨_, hentry, rfl⟩
  · obtain ⟨-, hnot, harray⟩ := (untypedNames_spec _ _ _).2 _ huntyped
    have htype : p.final.context.types.get? (ofName raw) = none := by
      rw [← Option.not_isSome_iff_eq_none]
      exact fun hsome => hnot ((Ledger.contains_iff_mem_keys _ _).1 hsome)
    refine ⟨_, .untyped htype harray, hdeclaration _ (List.mem_append_right _ ?_)⟩
    exact List.mem_map_of_mem huntyped

end Project

end BlockCompiler
