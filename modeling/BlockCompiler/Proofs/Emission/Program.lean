import BlockCompiler.Proofs.Emission.Run

set_option autoImplicit false

/-! # Runs of whole programs

The recipe of the main function read as the recipes of blocks are: which blocks it asks for and which
actions it takes. -/

namespace BlockCompiler.Project

/-- The blocks that a stack on the canvas makes the main function ask for. -/
def stackReads (p : Project) (id : BlockId) : List BlockId :=
  match p.workspace.block? id with
  | none => []
  | some b =>
    match (p.definition? b).map Definition.shape with
    | some .definition =>
      if b.disabled then (p.workspace.chainFrom id).members.filter p.workspace.takesPart else [id]
    | some .value => []
    | _ => (p.workspace.chainFrom id).members.filter p.workspace.takesPart

/-- The blocks that the main function asks for, in the order in which it does. -/
def mainReads (p : Project) : List BlockId := p.workspace.topBlocks.flatMap p.stackReads

theorem takesPart_of_mem_stackReads {p : Project} {id x : BlockId} (hx : x ∈ p.stackReads id) :
    p.workspace.takesPart x = true := by
  unfold stackReads at hx
  split at hx
  · cases hx
  · next b hb =>
    split at hx
    · split at hx
      · exact (List.mem_filter.1 hx).2
      · next henabled =>
        obtain rfl := List.mem_singleton.1 hx
        exact Workspace.takesPart_eq_true_iff.2 ⟨b, hb, Bool.eq_false_iff.2 henabled⟩
    · cases hx
    · exact (List.mem_filter.1 hx).2

/-- The main function asks for blocks that take part in the program. -/
theorem takesPart_of_mem_mainReads {p : Project} {x : BlockId} (hx : x ∈ p.mainReads) :
    p.workspace.takesPart x = true := by
  obtain ⟨id, -, hx⟩ := List.mem_flatMap.1 hx
  exact takesPart_of_mem_stackReads hx

/-- The actions that the main function takes. -/
inductive MainAllows (p : Project) : Action → Prop where
  | library : MainAllows p (.register .includes "simpletools" "#include \"simpletools.h\"")
  | cyclic {head : BlockId} {d : Diagnostic} :
    head ∈ p.workspace.topBlocks → (p.workspace.chainFrom head).repeated ≠ none →
    d.message = Emit.cyclicMessage → MainAllows p (.diagnose d)

variable (p : Project)

theorem definitionCode_meets (id : BlockId) :
    (definitionCode id).Meets [id] p.MainAllows Text.IsClosed := by
  refine (Recipe.Meets.code id).bind fun fragment hfragment => ?_
  cases fragment with
  | statement text => exact .pure hfragment
  | expression found => exact .pure Text.isClosed_empty

theorem stackCode_meets {id : BlockId} (hid : id ∈ p.workspace.topBlocks) :
    (p.stackCode id).Meets (p.stackReads id) p.MainAllows Text.IsClosed := by
  have hchain : (Emit.chain p id).Meets
      ((p.workspace.chainFrom id).members.filter p.workspace.takesPart) p.MainAllows Text.IsClosed :=
    Emit.chain_meets p fun hrepeated d hd => .cyclic hid hrepeated hd
  unfold stackCode stackReads
  cases hb : p.workspace.block? id with
  | none => exact .pure Text.isClosed_empty
  | some b =>
    dsimp only
    cases hshape : (p.definition? b).map Definition.shape with
    | none => exact hchain
    | some shape =>
      cases shape with
      | statement => exact hchain
      | value => exact .pure Text.isClosed_empty
      | definition =>
        dsimp only
        split
        · exact hchain
        · exact definitionCode_meets p id

theorem mainBody_meets : p.mainBody.Meets p.mainReads p.MainAllows Text.IsClosed := by
  have hlibrary : (Recipe.ensure .includes "simpletools" "#include \"simpletools.h\"").Meets []
      p.MainAllows fun _ => True :=
    (Recipe.Meets.perform .library).bind fun _ _ => .pure trivial
  exact hlibrary.bind fun _ _ => Recipe.Meets.concat fun _ hid => stackCode_meets p hid

/-! ## Laws of programs -/

/-- The state in which the program is complete. -/
def final (p : Project) : Emission := (p.run p.mainBody .empty).2

theorem compile_diagnostics : p.compile.diagnostics = p.final.context.diagnostics := rfl

variable {p}

/-- The path that the main function took, given a law of the code of all blocks. -/
theorem final_steps {law : Law}
    (hlaw : ∀ id s, Emission.Nested p.workspace s → law id s (p.emit id s).1 (p.emit id s).2) :
    ∃ es, p.mainBody.Path es (p.run p.mainBody .empty).1 ∧
      Emission.Steps law [] es .empty p.final ∧ (∀ e ∈ es, e.IsClosed) ∧
      (Event.asked es).Sublist p.mainReads ∧ ∀ action ∈ Event.actions es, p.MainAllows action := by
  obtain ⟨es, hpath, hsteps⟩ := run_steps (fun id s f t => f.IsClosed ∧ law id s f t)
    (Emission.Nested.empty p.workspace) (fun id s hs _ => ⟨p.emit_isClosed id s hs, hlaw id s hs⟩)
    p.mainBody
  have hclosed : ∀ e ∈ es, e.IsClosed := by
    intro e he
    cases e with
    | made j f => exact hsteps.forall_made (P := fun _ f => f.IsClosed) (fun _ _ _ _ h => h.1) he
    | did action answer => trivial
    | drew n => trivial
  obtain ⟨hasked, hallowed, -⟩ := p.mainBody_meets es _ hpath hclosed
  exact ⟨es, hpath, hsteps.imp fun _ _ _ _ h => h.2, hclosed, hasked, hallowed⟩

end BlockCompiler.Project
