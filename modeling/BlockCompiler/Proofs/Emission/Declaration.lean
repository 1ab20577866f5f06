import BlockCompiler.Proofs.Emission.Initializer
import BlockCompiler.Proofs.Emission.Laid
import BlockCompiler.Proofs.Emit.Array
import Mathlib.Data.List.Find

set_option autoImplicit false

/-! # Whether an array is declared large enough

Array blocks count with the size that the first initializer of the array in program order asks for,
while the array is declared by the first one that is started. Program order follows every link, also
those of blocks that do not take part in the program, and it reads a blank name differently; so an
access may be kept inside another size than the declared one. This module says just when it fits. -/

namespace BlockCompiler

namespace Emit

variable {p : Project} {b : Block} {kind : Kind}

theorem arrayDeclaration_inj {name : String} {size size' : Int}
    (h : arrayDeclaration name size = arrayDeclaration name size') : size = size' := by
  have hsize := (String.append_right_inj _).1 ((String.append_left_inj _).1 h)
  exact Text.toString_inj (congrArg String.toList hsize)

theorem arrayKey_inj {name name' : String} (h : arrayKey name = arrayKey name') : name = name' :=
  (String.append_right_inj _).1 h

theorem head?_arrayKey (name : String) : (arrayKey name).toList.head? = some 'a' := by
  rw [arrayKey, String.toList_append]
  rfl

/-- The key of an array is registered by initializers only. -/
theorem Allowed.not_registers_array {action : Action} (h : Allowed p b kind action)
    (hkind : kind ≠ .arrayInit) (name : String) :
    ¬action.Registers .globals (arrayKey name) := by
  have htable : ∀ kind ∈ Kind.all, ∀ key ∈ ownKeys kind, key.2.toList.head? ≠ some 'a' := by
    decide +kernel
  intro hregisters
  cases h with
  | own text hown _ =>
    obtain ⟨-, rfl⟩ := hregisters
    exact htable kind (Kind.mem_all kind) _ hown (head?_arrayKey name)
  | snippet text _ _ =>
    obtain ⟨-, hkey⟩ := hregisters
    have hhead := head?_arrayKey name
    rw [hkey, String.toList_append] at hhead
    cases hhead
  | array size heq => exact hkind heq
  | prototype => exact nomatch hregisters.1
  | function => exact nomatch hregisters.1
  | mount => exact nomatch hregisters.1
  | remount => exact nomatch hregisters.1
  | inferType | setType | setLength | diagnose => exact hregisters.elim

/-- An initializer registers its declaration, and at most records a diagnostic besides. -/
theorem arrayInit_path {es : List Event} {text : String} (hpath : (arrayInit p b).Path es text) :
    ∃ isNew rest, es = .did (.register .globals (arrayKey (variableName p b))
        (arrayDeclaration (variableName p b) (arraySize (p.field b "NUM")))) isNew :: rest ∧
      (rest = [] ∨ ∃ d, rest = [.did (.diagnose d) ()]) := by
  obtain ⟨es₁, isNew, es₂, rfl, hregister, hrest⟩ := hpath.of_bind
  obtain rfl := hregister.of_perform
  refine ⟨isNew, es₂, rfl, ?_⟩
  split at hrest
  · obtain ⟨d, -, rfl, -⟩ := Recipe.Path.of_diagnose hrest
    exact .inr ⟨d, rfl⟩
  · exact .inl hrest.of_pure.1

end Emit

namespace Project

variable {p : Project}

/-! ## Sizes -/

/-- The size of an array by its first initializer among blocks that are given in turn. -/
def sizeAmong? (p : Project) (ids : List BlockId) (name : String) : Option Int :=
  (((ids.filter (p.isOf .arrayInit)).filterMap p.workspace.block?).find? fun init =>
    Emit.variableName p init == name).map fun init => Emit.arraySize (p.field init "NUM")

/-- The size of an array by its first initializer that is started. -/
def startedSize? (p : Project) (name : String) : Option Int :=
  p.sizeAmong? p.final.started.reverse name

theorem sizeAmong?_concat_of_not_init (ids : List BlockId) {id : BlockId}
    (h : p.isOf .arrayInit id = false) (name : String) :
    p.sizeAmong? (ids ++ [id]) name = p.sizeAmong? ids name := by
  have hnone : [id].filter (p.isOf .arrayInit) = [] := List.filter_cons_of_neg (by simp [h])
  rw [sizeAmong?, List.filter_append, hnone, List.append_nil]
  rfl

theorem sizeAmong?_concat_of_init (ids : List BlockId) {id : BlockId} {b : Block}
    (hb : p.workspace.block? id = some b) (h : p.isOf .arrayInit id = true) (name : String) :
    p.sizeAmong? (ids ++ [id]) name = (p.sizeAmong? ids name).or
      (if Emit.variableName p b = name then some (Emit.arraySize (p.field b "NUM")) else none) := by
  have hlast : ([id].filter (p.isOf .arrayInit)).filterMap p.workspace.block? = [b] := by
    simp [h, hb]
  rw [sizeAmong?, List.filter_append, List.filterMap_append, List.find?_append, Option.map_or, hlast]
  refine congrArg (Option.or _) ?_
  by_cases hname : Emit.variableName p b = name <;> simp [hname]

/-! ## Declarations in turn -/

/-- Every array is declared as the first one of its initializers that was started asks for. -/
def IsDeclared (p : Project) (s : Emission) : Prop :=
  ∀ name, s.context.text? .globals (Emit.arrayKey name) =
    (p.sizeAmong? s.started.reverse name).map (Emit.arrayDeclaration name)

/-- The code of a block keeps arrays declared. -/
def KeepsDeclared (p : Project) : Law := fun _ s _ t => p.IsDeclared s → p.IsDeclared t

theorem IsDeclared.perform {s : Emission} {action : Action} (h : p.IsDeclared s)
    (haction : ∀ name, ¬action.Registers .globals (Emit.arrayKey name)) :
    p.IsDeclared (s.perform action).2 := by
  have hglobals : Section.globals ≠ .setups := nofun
  intro name
  refine Eq.trans ?_ (h name)
  exact Action.text?_perform_of_not_registers hglobals (haction name) s.context

/-- A block that is no initializer leaves declarations alone, as long as the blocks that it asks for
keep them. -/
theorem isDeclared_of_not_init {id : BlockId} {b : Block} {s t : Emission} {es : List Event}
    {fragment : Fragment} (hb : p.workspace.block? id = some b)
    (hinit : p.isOf .arrayInit id = false) (htook : p.Took id b es fragment)
    (hsteps : Emission.Steps p.KeepsDeclared (id :: s.active) es (s.enter id) t)
    (hs : p.IsDeclared s) : p.IsDeclared t := by
  refine hsteps.invariant ?_ (fun _ _ _ _ _ _ hlaw => hlaw) (fun _ h => h) ?_
  · intro action haction u hu
    refine hu.perform fun name => ?_
    have hallows := htook.allowed action haction
    unfold Allows at hallows
    split at hallows
    · next kind hkind =>
      refine hallows.not_registers_array ?_ name
      rintro rfl
      rw [(isOf_iff hb).2 hkind] at hinit
      cases hinit
    · obtain ⟨d, rfl, -⟩ := hallows
      exact not_false
  · intro name
    have hstarted : (s.enter id).started.reverse = s.started.reverse ++ [id] := List.reverse_cons
    rw [hstarted, sizeAmong?_concat_of_not_init _ hinit]
    exact hs name

/-- An initializer declares its array unless that is declared. -/
theorem isDeclared_of_init {id : BlockId} {b : Block} {s t : Emission} {es : List Event}
    {fragment : Fragment} (hb : p.workspace.block? id = some b)
    (hinit : p.isOf .arrayInit id = true) (htook : p.Took id b es fragment)
    (hsteps : Emission.Steps p.KeepsDeclared (id :: s.active) es (s.enter id) t)
    (hs : p.IsDeclared s) : p.IsDeclared t := by
  have hpath := htook.path
  rw [Emit.recipe_of_kind ((isOf_iff hb).1 hinit)] at hpath
  obtain ⟨es₁, text, es₂, rfl, hcode, hpure⟩ := hpath.of_bind
  obtain ⟨rfl, -⟩ := hpure.of_pure
  obtain ⟨isNew, rest, rfl, hrest⟩ := Emit.arrayInit_path hcode
  rw [List.append_nil] at hsteps
  cases hsteps with
  | did action hsteps =>
    have hregistered : p.IsDeclared ((s.enter id).perform (.register .globals
        (Emit.arrayKey (Emit.variableName p b)) (Emit.arrayDeclaration (Emit.variableName p b)
          (Emit.arraySize (p.field b "NUM"))))).2 := by
      intro name
      have hstarted : (s.enter id).started.reverse = s.started.reverse ++ [id] := List.reverse_cons
      refine (Action.text?_register ..).trans ?_
      show _ = (p.sizeAmong? (s.enter id).started.reverse name).map _
      rw [hstarted, sizeAmong?_concat_of_init _ hb hinit, Option.map_or, ← hs name]
      show (if (s.context.text? .globals _).isNone && _ then _ else s.context.text? .globals _) = _
      cases htext : s.context.text? .globals (Emit.arrayKey name) with
      | some text => rfl
      | none =>
        by_cases hname : Emit.variableName p b = name
        · subst hname
          simp
        · have hkey : Emit.arrayKey name ≠ Emit.arrayKey (Emit.variableName p b) := fun heq =>
            hname (Emit.arrayKey_inj heq).symm
          simp [hname, hkey]
    rcases hrest with rfl | ⟨d, rfl⟩
    · cases hsteps
      exact hregistered
    · cases hsteps with
      | did action hsteps =>
        cases hsteps
        exact hregistered.perform fun _ => not_false

theorem emit_keepsDeclared (id : BlockId) (s : Emission) (hs : s.Nested p.workspace) :
    p.KeepsDeclared id s (p.emit id s).1 (p.emit id s).2 := by
  refine (emit_induction p.KeepsDeclared ?_ ?_ ?_ id s hs).2
  · exact fun _ _ _ hdeclared => hdeclared
  · intro id b s _ _ hdeclared
    have hwarning : ∀ name, ¬(Action.diagnose (selfConnectedWarning b)).Registers .globals
        (Emit.arrayKey name) := fun _ => not_false
    exact hdeclared.perform hwarning
  · intro id b s es fragment t hb _ htook hsteps hdeclared
    have ht : p.IsDeclared t := by
      cases hinit : p.isOf .arrayInit id with
      | false => exact isDeclared_of_not_init hb hinit htook hsteps hdeclared
      | true => exact isDeclared_of_init hb hinit htook hsteps hdeclared
    exact ht

theorem final_isDeclared : p.IsDeclared p.final := by
  obtain ⟨es, -, hsteps, -, -, hallowed⟩ := final_steps emit_keepsDeclared
  refine hsteps.invariant ?_ (fun _ _ _ _ _ _ hlaw => hlaw) (fun _ h => h) fun _ => rfl
  intro action haction s hs
  refine hs.perform fun name => ?_
  cases hallowed action haction with
  | library => exact fun hregisters => nomatch hregisters.1
  | cyclic => exact not_false

/-! ## Declarations in the program -/

/-- A text is one of those that the section of global variables consists of. -/
def HasGlobal (p : Project) (text : String) : Prop :=
  ∃ front before after back, p.compile.source =
    front ++ titled "Global Variables and Objects" ("\n".intercalate (before ++ text :: after)) ++ back

theorem hasGlobal_of_text? {key text : String}
    (h : p.final.context.text? .globals key = some text) : p.HasGlobal text :=
  lists_of_mem (mem_parts_globals _ _) (List.mem_append_left _ (mem_values_of_text? h))

/-- A program declares an array with a size: the declaration is registered for the array and stands
in the section of global variables. -/
structure Declares (p : Project) (name : String) (size : Int) : Prop where
  registered : p.final.context.text? .globals (Emit.arrayKey name) =
    some (Emit.arrayDeclaration name size)
  printed : p.HasGlobal (Emit.arrayDeclaration name size)

/-- An array is declared with the size that the first of its initializers that is started asks
for. -/
theorem declares_iff {name : String} {size : Int} :
    p.Declares name size ↔ p.startedSize? name = some size := by
  have hfinal : p.final.context.text? .globals (Emit.arrayKey name) =
    (p.startedSize? name).map (Emit.arrayDeclaration name) := final_isDeclared name
  constructor
  · rintro ⟨hregistered, -⟩
    rw [hfinal] at hregistered
    obtain ⟨size', hstarted, hsame⟩ := Option.map_eq_some_iff.1 hregistered
    rw [hstarted, Emit.arrayDeclaration_inj hsame]
  · intro hstarted
    rw [hstarted] at hfinal
    exact ⟨hfinal, hasGlobal_of_text? hfinal⟩

/-! ## Code made of indexes -/

/-- All code on record comes of paths that got indexes. -/
def IsMadeOfIndexes (p : Project) (s : Emission) : Prop :=
  ∀ id fragment, (id, fragment) ∈ s.made → ∃ b es, p.workspace.block? id = some b ∧
    (Emit.recipe p id b).Path es fragment ∧ ∀ j g, .made j g ∈ es → g.IsIndex

/-- Code is an index if it is an expression, and adds to code that is made of indexes. -/
def AddsIndex (p : Project) : Law := fun _ s fragment t =>
  fragment.IsIndex ∧ (p.IsMadeOfIndexes s → p.IsMadeOfIndexes t)

theorem emit_addsIndex (id : BlockId) (s : Emission) (hs : s.Nested p.workspace) :
    p.AddsIndex id s (p.emit id s).1 (p.emit id s).2 := by
  refine (emit_induction p.AddsIndex ?_ ?_ ?_ id s hs).2
  · exact fun _ _ _ => ⟨trivial, fun hmade => hmade⟩
  · intro id b s _ _
    exact ⟨trivial, fun hmade => hmade⟩
  · intro id b s es fragment t hb _ htook hsteps
    have hindexes : ∀ j g, .made j g ∈ es → g.IsIndex := fun j g hmem =>
      hsteps.forall_made (P := fun _ g => g.IsIndex) (fun _ _ _ _ h => h.1) hmem
    refine ⟨Emit.recipe_isIndex p b id es fragment htook.path hindexes, fun hmade => ?_⟩
    have ht : p.IsMadeOfIndexes t :=
      hsteps.invariant (fun _ _ _ h => h) (fun _ _ _ _ _ _ hlaw => hlaw.2) (fun _ h => h) hmade
    intro x g hmem
    rcases List.mem_cons.1 hmem with heq | hmem
    · cases heq
      exact ⟨b, es, hb, htook.path, hindexes⟩
    · exact ht x g hmem

theorem final_isMadeOfIndexes : p.IsMadeOfIndexes p.final := by
  obtain ⟨es, -, hsteps, -⟩ := final_steps emit_addsIndex
  exact hsteps.invariant (fun _ _ _ h => h) (fun _ _ _ _ _ _ hlaw => hlaw.2) (fun _ h => h) nofun

/-! ## Accesses -/

section Access

variable {id : BlockId} {b : Block} {kind : Kind} {fragment : Fragment} {fits : Int → Prop}
  (hb : p.workspace.block? id = some b) (hkind : Kind.ofName? b.type = some kind)
  (hcode : p.codeOf? id = some fragment)
  (haccess : Emit.Access (Emit.variableName p b) kind fragment fits)

include hb hkind hcode haccess

/-- An access fits the size that array blocks count with. -/
theorem initializedSize?_fits :
    ∃ size, Emit.initializedSize? p (Emit.variableName p b) = some size ∧ fits size := by
  obtain ⟨b', es, hb', hpath, hindexes⟩ := final_isMadeOfIndexes id fragment
    (mem_made_of_codeOf? hcode)
  obtain rfl := Option.some_inj.1 (hb.symm.trans hb')
  exact haccess.fits_initializedSize hkind hpath hindexes

/-- An access fits the size that array blocks count with. It fits the declared size just if it fits
the one that the first initializer of the array that is started asks for. -/
theorem declares_fitting_iff :
    (∃ size, Emit.initializedSize? p (Emit.variableName p b) = some size ∧ fits size) ∧
      ((∃ size, p.Declares (Emit.variableName p b) size ∧ fits size) ↔
        ∃ size, p.startedSize? (Emit.variableName p b) = some size ∧ fits size) :=
  ⟨initializedSize?_fits hb hkind hcode haccess,
    exists_congr fun _ => and_congr_left fun _ => declares_iff⟩

end Access

/-- A program that writes to an array of five elements, while the first initializer of the array asks
for a hundred and stands in a disabled loop. -/
def outsized : Project where
  workspace :=
    { blocks := #[
        { id := "controls_repeat#0", type := "controls_repeat", disabled := true
          statements := ⟨[("DO", 1)]⟩ },
        { id := "array_init#1", type := "array_init", fields := ⟨[("VAR", "a"), ("NUM", "100")]⟩ },
        { id := "array_init#2", type := "array_init", fields := ⟨[("VAR", "a"), ("NUM", "5")]⟩
          next := some 3, y := 1 },
        { id := "array_set#3", type := "array_set", fields := ⟨[("VAR", "a")]⟩
          values := ⟨[("NUM", 4)]⟩ },
        { id := "math_number#4", type := "math_number", fields := ⟨[("NUM", "50")]⟩ }]
      top := [0, 2]
      index := [0, 1, 2, 3, 4]
      variableNames := ["a"] }

/-- The subscript is below the size that is counted with, and past the declared one. -/
theorem not_declares_fitting_outsized :
    outsized.codeOf? 3 = some (.statement "a[50] = 0;\n") ∧
      (∃ size, Emit.initializedSize? outsized "a" = some size ∧ 0 ≤ (50 : Int) ∧ 50 < size) ∧
      outsized.Declares "a" 5 ∧ ¬∃ size, outsized.Declares "a" size ∧ 0 ≤ (50 : Int) ∧ 50 < size := by
  have hcode : outsized.codeOf? 3 = some (.statement "a[50] = 0;\n") := by decide +kernel
  have hstarted : outsized.startedSize? "a" = some 5 := by decide +kernel
  have hname : Emit.variableName outsized outsized.workspace.blocks[3] = "a" := by decide +kernel
  have haccess : Emit.Access (Emit.variableName outsized outsized.workspace.blocks[3]) .arraySet
      (.statement "a[50] = 0;\n") fun size => 0 ≤ (50 : Int) ∧ 50 < size := by
    rw [hname]
    exact .set 50 "0;\n"
  have hfits := declares_fitting_iff rfl (by decide) hcode haccess
  rw [hname] at hfits
  refine ⟨hcode, hfits.1, declares_iff.2 hstarted, ?_⟩
  rw [hfits.2, hstarted]
  rintro ⟨size, hsize, -, hlarge⟩
  obtain rfl := Option.some_inj.1 hsize
  exact absurd hlarge (by decide)

end Project

end BlockCompiler
