import BlockCompiler.Proofs.Emission.Function
import BlockCompiler.Proofs.Emission.Variable

set_option autoImplicit false

/-! # Names at file scope

A program declares arrays, objects of libraries, variables and functions side by side. Each family has
keys of its own, and only variables without a type are compared with the arrays; so names are distinct
within a family, and from one family to another just where no block chose the same name for two
things. All names are kept apart from the reserved ones. -/

namespace BlockCompiler

open Identifier

/-! ## Declarations -/

namespace Emit

/-- A text in the section of global objects is the declaration of an array under the key of the array,
or one of those that are the same in every program. -/
inductive IsGlobal : String → String → Prop
  | array {name : String} (size : Int) :
    IsIdentifier name → IsGlobal (arrayKey name) (arrayDeclaration name size)
  | object {key text : String} : ((.globals, key), text) ∈ fixedTexts → IsGlobal key text

/-- A text in the section of functions is a function under its name. -/
inductive IsFunction : String → String → Prop
  | function {name : String} (stack : String) :
    IsIdentifier name → IsFunction name (functionText name stack)

/-- The keys of the objects of libraries, and what the objects are called. -/
def objects : List (String × String) :=
  [("sound_handle", "audio0"), ("sd_file", "fp"), ("constrain_function", "constrain")]

/-! ### Names read back -/

theorem ofDeclaration_array {name : String} (hname : IsIdentifier name) (size : Int) :
    ofDeclaration (arrayDeclaration name size) = name := by
  obtain ⟨raw, rfl⟩ := hname
  rw [arrayDeclaration, String.append_assoc, String.append_assoc]
  exact ofDeclaration_eq (c := ' ') (d := '[') (by decide) rfl (by decide)
    (Expression.isName_ofName raw).word (by rw [String.toList_append]; rfl) (by decide)

theorem ofDeclaration_function {name : String} (hname : IsIdentifier name) (stack : String) :
    ofDeclaration (functionText name stack) = name := by
  obtain ⟨raw, rfl⟩ := hname
  rw [functionText, String.append_assoc, String.append_assoc]
  exact ofDeclaration_eq (c := ' ') (d := '(') (by decide) rfl (by decide)
    (Expression.isName_ofName raw).word (by rw [String.toList_append]; rfl) (by decide)

theorem mem_objects_of_fixed {key text : String} (h : ((.globals, key), text) ∈ fixedTexts) :
    (key, ofDeclaration text) ∈ objects := by
  have htable : ∀ entry ∈ fixedTexts, entry.1.1 = .globals →
      (entry.1.2, ofDeclaration entry.2) ∈ objects := by decide +kernel
  exact htable _ h rfl

/-- No array has the key of an object. -/
theorem arrayKey_not_object {name object : String} : (arrayKey name, object) ∉ objects := by
  have htable : ∀ entry ∈ objects, entry.1.toList.head? ≠ some 'a' := by decide
  exact fun hmem => htable _ hmem (head?_arrayKey name)

theorem IsGlobal.name {key text : String} (h : IsGlobal key text) :
    key = arrayKey (ofDeclaration text) ∨ (key, ofDeclaration text) ∈ objects := by
  cases h with
  | array size hname => exact .inl (by rw [ofDeclaration_array hname])
  | object hfixed => exact .inr (mem_objects_of_fixed hfixed)

/-- What is declared is called by an identifier or is an object. -/
theorem IsGlobal.isIdentifier {key text : String} (h : IsGlobal key text) :
    IsIdentifier (ofDeclaration text) ∨ (key, ofDeclaration text) ∈ objects := by
  cases h with
  | array size hname => exact .inl (by rwa [ofDeclaration_array hname])
  | object hfixed => exact .inr (mem_objects_of_fixed hfixed)

theorem IsFunction.isIdentifier {key text : String} (h : IsFunction key text) : IsIdentifier key := by
  cases h with
  | function stack hname => exact hname

theorem IsFunction.name {key text : String} (h : IsFunction key text) :
    ofDeclaration text = key := by
  cases h with
  | function stack hname => exact ofDeclaration_function hname stack

theorem IsGlobal.name_of_array {text name : String} (h : IsGlobal (arrayKey name) text) :
    ofDeclaration text = name := by
  rcases h.name with hname | hname
  · exact (arrayKey_inj hname).symm
  · exact absurd hname arrayKey_not_object

theorem IsGlobal.name_of_object {key text name : String} (h : IsGlobal key text)
    (hobject : (key, name) ∈ objects) : ofDeclaration text = name := by
  have hunique : ∀ a ∈ objects, ∀ b ∈ objects, a.1 = b.1 → a = b := by decide +kernel
  rcases h.name with hname | hname
  · exact absurd (hname ▸ hobject) arrayKey_not_object
  · exact congrArg Prod.snd (hunique _ hname _ hobject rfl)

/-- Objects have different names. -/
theorem objects_inj {key key' name : String} (h : (key, name) ∈ objects)
    (h' : (key', name) ∈ objects) : key = key' := by
  have hunique : ∀ a ∈ objects, ∀ b ∈ objects, a.2 = b.2 → a = b := by decide +kernel
  exact congrArg Prod.fst (hunique _ h _ h' rfl)

end Emit

/-! ## Well named contexts -/

/-- An action registers a declaration of its key. -/
def Action.IsNamed : Action → Prop
  | .register .globals key text => Emit.IsGlobal key text
  | .register .methods key text => Emit.IsFunction key text
  | _ => True

/-- The keys of a context are distinct, and what is registered under a key declares it. -/
structure Context.IsNamed (c : Context) : Prop where
  globals : ∀ entry ∈ c.globals.entries, Emit.IsGlobal entry.1 entry.2
  globalKeys : c.globals.keys.Nodup
  methods : ∀ entry ∈ c.methods.entries, Emit.IsFunction entry.1 entry.2
  methodKeys : c.methods.keys.Nodup

theorem Context.isNamed_empty : Context.IsNamed {} where
  globals := nofun
  globalKeys := List.nodup_nil
  methods := nofun
  methodKeys := List.nodup_nil

namespace Action

theorem IsNamed.perform {c : Context} (h : c.IsNamed) {action : Action} (haction : action.IsNamed) :
    (action.perform c).2.IsNamed := by
  cases action with
  | register part key text =>
    cases part with
    | globals =>
      exact { h with
        globals := fun entry hentry =>
          (Ledger.mem_add hentry).elim (h.globals entry) fun heq => heq ▸ haction
        globalKeys := Ledger.keys_nodup_add _ _ _ h.globalKeys }
    | methods =>
      exact { h with
        methods := fun entry hentry =>
          (Ledger.mem_add hentry).elim (h.methods entry) fun heq => heq ▸ haction
        methodKeys := Ledger.keys_nodup_add _ _ _ h.methodKeys }
    | _ => exact ⟨h.globals, h.globalKeys, h.methods, h.methodKeys⟩
  | inferType name text =>
    cases htype : c.types.get? name <;> simp only [Action.perform, htype] <;>
      exact ⟨h.globals, h.globalKeys, h.methods, h.methodKeys⟩
  | _ => exact ⟨h.globals, h.globalKeys, h.methods, h.methodKeys⟩

end Action

/-- The actions of all kinds of blocks but custom code are well named. -/
theorem Emit.Allowed.isNamed {p : Project} {b : Block} {kind : Kind} {action : Action}
    (h : Emit.Allowed p b kind action) (hkind : kind ≠ .customCode) : action.IsNamed := by
  have htable : ∀ kind ∈ Kind.all, ∀ key ∈ ownKeys kind, key.1 ≠ .methods ∧
      (key.1 = .globals → ∃ entry ∈ fixedTexts, entry.1 = key) := by decide +kernel
  cases h with
  | @own part key text hown hfixed =>
    obtain ⟨hmethods, hglobals⟩ := htable kind (Kind.mem_all kind) _ hown
    cases part with
    | methods => exact absurd rfl hmethods
    | globals =>
      obtain ⟨entry, hentry, heq⟩ := hglobals rfl
      obtain rfl := hfixed entry.2 (heq ▸ hentry)
      exact .object (heq ▸ hentry)
    | _ => trivial
  | snippet text hcustom => exact absurd hcustom hkind
  | array size => exact .array size ⟨_, rfl⟩
  | function stack => exact .function stack ⟨_, rfl⟩
  | prototype | mount | remount | inferType | setType | setLength | diagnose => trivial

namespace Project

variable {p : Project}

/-! ## Emissions -/

/-- Without custom code, the context is well named. -/
def IsNamed (p : Project) (s : Emission) : Prop :=
  (∀ x ∈ s.started, p.isOf .customCode x = false) → s.context.IsNamed

/-- The code of a block leaves what was started, and keeps the context well named. -/
def KeepsNamed (p : Project) : Law := fun _ s _ t =>
  s.started ⊆ t.started ∧ (p.IsNamed s → p.IsNamed t)

theorem steps_started_subset {active : List BlockId} {es : List Event} {s t : Emission}
    (hsteps : Emission.Steps p.KeepsNamed active es s t) : s.started ⊆ t.started :=
  hsteps.invariant (I := fun u => s.started ⊆ u.started) (fun _ _ _ h => h)
    (fun _ _ _ _ _ _ hlaw h => List.Subset.trans h hlaw.1) (fun _ h => h) (List.Subset.refl _)

theorem emit_keepsNamed (id : BlockId) (s : Emission) (hs : s.Nested p.workspace) :
    p.KeepsNamed id s (p.emit id s).1 (p.emit id s).2 := by
  refine (emit_induction p.KeepsNamed ?_ ?_ ?_ id s hs).2
  · exact fun id s _ => ⟨List.Subset.refl _, fun h => h⟩
  · intro id b s _ _
    have hwarning : (Action.diagnose (selfConnectedWarning b)).IsNamed := trivial
    exact ⟨List.Subset.refl _, fun h hcustom => hwarning.perform (h hcustom)⟩
  · intro id b s es fragment t hb _ htook hsteps
    have hstarted : s.started ⊆ t.started :=
      List.Subset.trans (List.subset_cons_self id _) (steps_started_subset hsteps)
    refine ⟨hstarted, fun hnamed hcustom => ?_⟩
    have hid : p.isOf .customCode id = false :=
      hcustom id (steps_started_subset hsteps List.mem_cons_self)
    -- the block is no custom code itself, so all of its actions are well named
    have hactions : ∀ action ∈ Event.actions es, action.IsNamed := by
      intro action haction
      have hallowed := htook.allowed action haction
      unfold Allows at hallowed
      split at hallowed
      · next kind hkind =>
        refine hallowed.isNamed ?_
        rintro rfl
        rw [(isOf_iff hb).2 hkind] at hid
        cases hid
      · obtain ⟨d, rfl, -⟩ := hallowed
        trivial
    have ht : p.IsNamed t := hsteps.invariant (I := p.IsNamed)
      (fun action haction u hu hcustom => (hactions action haction).perform (hu hcustom))
      (fun _ _ _ _ _ _ hlaw hu => hlaw.2 hu) (fun _ hu => hu)
      fun hcustom' => hnamed fun x hx => hcustom' x (List.mem_cons_of_mem id hx)
    exact ht hcustom

theorem final_isNamed (hcustom : p.ran .customCode = []) : p.final.context.IsNamed := by
  obtain ⟨es, -, hsteps, -, -, hallowed⟩ := final_steps (emit_keepsNamed (p := p))
  have hfinal : p.IsNamed p.final := by
    refine hsteps.invariant (I := p.IsNamed) ?_ (fun _ _ _ _ _ _ hlaw hu => hlaw.2 hu)
      (fun _ hu => hu) fun _ => Context.isNamed_empty
    intro action haction u hu hcustom'
    refine Action.IsNamed.perform (hu hcustom') ?_
    cases hallowed action haction with
    | library => trivial
    | cyclic => trivial
  refine hfinal fun x hx => Bool.eq_false_iff.2 fun hof => ?_
  have hran : x ∈ p.ran .customCode := mem_ran.2 ⟨hx, hof⟩
  rw [hcustom] at hran
  cases hran

/-! ## Names -/

/-- The names of all arrays, objects, variables and functions, as the sections of the program declare
them. -/
def fileScope (p : Project) : List String :=
  (p.final.context.globals.values ++ p.variableDeclarations p.final.context ++
    p.final.context.methods.values).map ofDeclaration

/-- A name is declared as an array. -/
def DeclaresArray (p : Project) (name : String) : Prop :=
  p.final.context.has .globals (Emit.arrayKey name) = true

/-- A name is declared as an object of a library. -/
def DeclaresObject (p : Project) (name : String) : Prop :=
  ∃ key, (key, name) ∈ Emit.objects ∧ p.final.context.has .globals key = true

/-- A name is declared as a variable that has a type. -/
def DeclaresTyped (p : Project) (name : String) : Prop := name ∈ p.final.context.types.keys

/-- A name is declared as a variable of the editor that has no type. -/
def DeclaresUntyped (p : Project) (name : String) : Prop :=
  name ∈ untypedNames p.final.context p.final.context.types.keys p.workspace.variableNames

/-- A name is declared as a function. -/
def DeclaresFunction (p : Project) (name : String) : Prop :=
  p.final.context.has .methods name = true

section Named

variable (h : p.final.context.IsNamed)

include h

theorem map_methods :
    p.final.context.methods.values.map ofDeclaration = p.final.context.methods.keys := by
  rw [Ledger.values, Ledger.keys, List.map_map]
  exact List.map_congr_left fun entry hentry => (h.methods entry hentry).name

omit h in
theorem exists_entry_of_has {key : String} (hkey : p.final.context.has .globals key = true) :
    ∃ entry ∈ p.final.context.globals.entries, entry.1 = key :=
  List.mem_map.1 ((Ledger.contains_iff_mem_keys _ _).1 hkey)

theorem mem_globals_iff {name : String} : name ∈ p.final.context.globals.values.map ofDeclaration ↔
    p.DeclaresArray name ∨ p.DeclaresObject name := by
  rw [Ledger.values, List.map_map, List.mem_map]
  constructor
  · rintro ⟨entry, hentry, rfl⟩
    have hkey : p.final.context.has .globals entry.1 = true :=
      (Ledger.contains_iff_mem_keys _ _).2 (List.mem_map_of_mem hentry)
    rcases (h.globals entry hentry).name with harray | hobject
    · exact .inl (by rw [DeclaresArray, Function.comp_apply, ← harray, hkey])
    · exact .inr ⟨entry.1, hobject, hkey⟩
  · rintro (harray | ⟨key, hobject, hkey⟩)
    · obtain ⟨entry, hentry, heq⟩ := exists_entry_of_has harray
      have hglobal := h.globals entry hentry
      rw [heq] at hglobal
      exact ⟨entry, hentry, hglobal.name_of_array⟩
    · obtain ⟨entry, hentry, rfl⟩ := exists_entry_of_has hkey
      exact ⟨entry, hentry, (h.globals entry hentry).name_of_object hobject⟩

/-- Arrays and objects have different names unless an array is called like an object. -/
theorem nodup_globals_iff : (p.final.context.globals.values.map ofDeclaration).Nodup ↔
    ∀ name, ¬(p.DeclaresArray name ∧ p.DeclaresObject name) := by
  rw [Ledger.values, List.map_map]
  constructor
  · rintro hnodup name ⟨harray, key, hobject, hkey⟩
    obtain ⟨array, hmem, harrayKey⟩ := exists_entry_of_has harray
    obtain ⟨object, hmem', rfl⟩ := exists_entry_of_has hkey
    have hglobal := h.globals array hmem
    rw [harrayKey] at hglobal
    have hsame : array = object := by
      refine List.inj_on_of_nodup_map hnodup hmem hmem' ?_
      rw [Function.comp_apply, Function.comp_apply, hglobal.name_of_array,
        (h.globals object hmem').name_of_object hobject]
    rw [← hsame, harrayKey] at hobject
    exact Emit.arrayKey_not_object hobject
  · intro hapart
    refine List.Nodup.map_on ?_ (List.Nodup.of_map Prod.fst h.globalKeys)
    intro a ha b hb hname
    replace hname : ofDeclaration a.2 = ofDeclaration b.2 := hname
    have hdeclared : ∀ entry ∈ p.final.context.globals.entries,
        p.final.context.has .globals entry.1 = true := fun entry hentry =>
      (Ledger.contains_iff_mem_keys _ _).2 (List.mem_map_of_mem hentry)
    -- entries with one name have one key, unless one is an array and the other an object
    have hkey : a.1 = b.1 := by
      rcases (h.globals a ha).name with harray | hobject
      · rcases (h.globals b hb).name with harray' | hobject'
        · rw [harray, harray', hname]
        · refine absurd ⟨?_, b.1, hobject', hdeclared b hb⟩ (hapart (ofDeclaration b.2))
          rw [DeclaresArray, ← hname, ← harray]
          exact hdeclared a ha
      · rcases (h.globals b hb).name with harray' | hobject'
        · refine absurd ⟨?_, a.1, hobject, hdeclared a ha⟩ (hapart (ofDeclaration a.2))
          rw [DeclaresArray, hname, ← harray']
          exact hdeclared b hb
        · exact Emit.objects_inj hobject (hname ▸ hobject')
    exact List.inj_on_of_nodup_map h.globalKeys ha hb hkey

omit h in
theorem mem_variables_iff {name : String} :
    name ∈ (p.variableDeclarations p.final.context).map ofDeclaration ↔
      p.DeclaresTyped name ∨ p.DeclaresUntyped name := by
  rw [map_variableDeclarations, List.mem_append]
  rfl

theorem mem_methods_iff {name : String} :
    name ∈ p.final.context.methods.values.map ofDeclaration ↔ p.DeclaresFunction name := by
  rw [map_methods h]
  exact (Ledger.contains_iff_mem_keys _ _).symm

/-- Every name is an identifier or that of an object, and so it is not reserved. -/
theorem not_mem_reserved {name : String} (hname : name ∈ p.fileScope) : name ∉ reserved := by
  have hidentifier : ∀ {name}, IsIdentifier name → name ∉ reserved := by
    rintro _ ⟨raw, rfl⟩
    exact ofName_not_mem_reserved raw
  have hobjects : ∀ object ∈ Emit.objects, object.2 ∉ reserved := by decide +kernel
  rw [fileScope, List.map_append, List.map_append, List.mem_append, List.mem_append,
    mem_variables_iff, map_methods h] at hname
  rcases hname with (hglobal | htyped | huntyped) | hfunction
  · obtain ⟨text, htext, rfl⟩ := List.mem_map.1 hglobal
    obtain ⟨entry, hentry, rfl⟩ := List.mem_map.1 htext
    rcases (h.globals entry hentry).isIdentifier with hname | hobject
    · exact hidentifier hname
    · exact hobjects _ hobject
  · exact hidentifier (final_isTyped.types name htyped)
  · exact hidentifier ((untypedNames_spec _ _ _).2 name huntyped).1
  · obtain ⟨entry, hentry, rfl⟩ := List.mem_map.1 hfunction
    exact hidentifier (h.methods entry hentry).isIdentifier

end Named

/-- The names at file scope are different just if no array or function is called like another thing
that is declared, with one exception: a variable without a type gives way to an array. None of the
names is reserved, whether or not they differ. -/
theorem fileScope_nodup_iff (hcustom : p.ran .customCode = []) :
    (p.fileScope.Nodup ↔ ∀ name, ¬(p.DeclaresArray name ∧ p.DeclaresTyped name) ∧
      ¬(p.DeclaresFunction name ∧
        (p.DeclaresArray name ∨ p.DeclaresTyped name ∨ p.DeclaresUntyped name)) ∧
      ¬(p.DeclaresObject name ∧ (p.DeclaresArray name ∨ p.DeclaresTyped name ∨
        p.DeclaresUntyped name ∨ p.DeclaresFunction name))) ∧
      ∀ name ∈ p.fileScope, name ∉ reserved := by
  have h := final_isNamed hcustom
  refine ⟨?_, fun name => not_mem_reserved h⟩
  have huntyped : ∀ name, ¬(p.DeclaresArray name ∧ p.DeclaresUntyped name) := by
    rintro name ⟨harray, huntyped⟩
    have hfree := ((untypedNames_spec _ _ _).2 name huntyped).2.2
    rw [show p.final.context.globals.contains (Emit.arrayKey name) = true from harray] at hfree
    cases hfree
  have hmethods : (p.final.context.methods.values.map ofDeclaration).Nodup := by
    rw [map_methods h]
    exact h.methodKeys
  -- the list is split into its families, each of which has different names
  rw [fileScope, List.map_append, List.map_append, List.nodup_append', List.nodup_append',
    nodup_globals_iff h, List.disjoint_left, List.disjoint_left]
  simp only [List.mem_append, mem_globals_iff h, mem_variables_iff, mem_methods_iff h,
    nodup_variables, hmethods, true_and]
  constructor
  · rintro ⟨⟨hobject, hvariable⟩, hfunction⟩ name
    refine ⟨?_, ?_, ?_⟩
    · rintro ⟨harray, htyped⟩
      exact hvariable (.inl harray) (.inl htyped)
    · rintro ⟨hname, harray | hvariable⟩
      · exact hfunction (.inl (.inl harray)) hname
      · exact hfunction (.inr hvariable) hname
    · rintro ⟨hname, harray | htyped | hnone | hfunction'⟩
      · exact hobject name ⟨harray, hname⟩
      · exact hvariable (.inr hname) (.inl htyped)
      · exact hvariable (.inr hname) (.inr hnone)
      · exact hfunction (.inl (.inr hname)) hfunction'
  · intro hapart
    refine ⟨⟨fun name => ?_, fun name => ?_⟩, fun name => ?_⟩
    · rintro ⟨harray, hobject⟩
      exact (hapart name).2.2 ⟨hobject, .inl harray⟩
    · rintro (harray | hobject) (htyped | hnone)
      · exact (hapart name).1 ⟨harray, htyped⟩
      · exact huntyped name ⟨harray, hnone⟩
      · exact (hapart name).2.2 ⟨hobject, .inr (.inl htyped)⟩
      · exact (hapart name).2.2 ⟨hobject, .inr (.inr (.inl hnone))⟩
    · rintro ((harray | hobject) | hvariable) hfunction
      · exact (hapart name).2.1 ⟨hfunction, .inl harray⟩
      · exact (hapart name).2.2 ⟨hobject, .inr (.inr (.inr hfunction))⟩
      · exact (hapart name).2.1 ⟨hfunction, .inr hvariable⟩

/-- A loop that counts by a variable which is called like a library function, and with a counter that
is called like an array. -/
def homonymous : Project where
  workspace :=
    { blocks := #[
        { id := "array_init#0", type := "array_init", fields := ⟨[("VAR", "i")]⟩ },
        { id := "controls_for#1", type := "controls_for", fields := ⟨[("VAR", "i")]⟩
          values := ⟨[("STEP", 2)]⟩, y := 1 },
        { id := "variables_get#2", type := "variables_get", fields := ⟨[("VAR", "abs")]⟩ }]
      top := [0, 1]
      index := [0, 1, 2]
      variableNames := ["i", "abs"] }

/-- The array and the counter have one name, and a variable has the name of a function that the
program calls and that is not reserved. -/
theorem fileScope_not_nodup_homonymous :
    homonymous.ran .customCode = [] ∧ homonymous.fileScope = ["i", "i", "abs"] ∧
      ¬homonymous.fileScope.Nodup ∧ "abs" ∉ reserved ∧
      ∃ front back, homonymous.body = front ++ "abs(abs);\n" ++ back := by
  have hcustom : homonymous.ran .customCode = [] := by decide +kernel
  have hnames : homonymous.fileScope = ["i", "i", "abs"] := by decide +kernel
  obtain ⟨hnodup, hreserved⟩ := fileScope_nodup_iff hcustom
  refine ⟨hcustom, hnames, fun hdistinct => ?_, hreserved "abs" (by simp [hnames]), ?_⟩
  · have harray : homonymous.DeclaresArray "i" := by unfold DeclaresArray; decide +kernel
    have htyped : homonymous.DeclaresTyped "i" := by unfold DeclaresTyped; decide +kernel
    exact ((hnodup.1 hdistinct) "i").1 ⟨harray, htyped⟩
  · refine ⟨"int _from0 = 1;\nint _to1 = 10;\nint _by2 = ",
      "for (i = _from0; _from0 <= _to1 ? i <= _to1 : i >= _to1; " ++
        "i += _from0 <= _to1 ? _by2 : -_by2) \x7b\n\x7d\n", ?_⟩
    decide +kernel

end Project

end BlockCompiler
