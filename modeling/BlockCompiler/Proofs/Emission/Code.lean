import BlockCompiler.Proofs.Emission.Chronicle

set_option autoImplicit false

/-! # Code made of code

In a program over a forest every block that is started has one code, and the path that its recipe
took got for each block that it asked for just that block's code. So what the program says can be
followed from the code of one block to the code of the one that reads it, down to the main function. -/

namespace BlockCompiler.Project

variable {p : Project} (h : p.workspace.IsForest p.workspace.top)

include h

/-- The path that yields a block's code gets the codes of the blocks that it asks for, and the texts
whose keys were new on it are registered in the program. -/
theorem path_of_codeOf? {id : BlockId} {fragment : Fragment} (hcode : p.codeOf? id = some fragment) :
    ∃ b es, p.workspace.block? id = some b ∧ p.Took id b es fragment ∧
      (∀ x g, .made x g ∈ es → p.codeOf? x = some g) ∧
      ∀ part key text, part ≠ .setups → .did (.register part key text) true ∈ es →
        p.final.context.text? part key = some text := by
  obtain ⟨events, entries, -, -, -, hchronicle⟩ := final_chronicle h
  obtain ⟨e, he, rfl, rfl⟩ := hchronicle.exists_entry hcode
  obtain ⟨hb, htook⟩ := hchronicle.took e he
  have hhappened : ∀ event ∈ e.events, event ∈ happened events entries := fun event hevent =>
    mem_happened.2 (.inr ⟨e, he, hevent⟩)
  exact ⟨e.block, e.events, hb, htook,
    fun x g hmem => hchronicle.codeOf?_of_asked h (hhappened _ hmem),
    fun part key text hpart hmem => hchronicle.stays part key text hpart (hhappened _ hmem)⟩

/-- Every text that is registered in the end, but for the library that every program includes, was
written on the path of some block. -/
theorem exists_writer {part : Section} {key text : String}
    (hentry : (key, text) ∈ (p.final.context.ledger part).entries) (hpart : part ≠ .includes) :
    ∃ id b es fragment, p.codeOf? id = some fragment ∧ p.workspace.block? id = some b ∧
      p.Took id b es fragment ∧ (∀ x g, .made x g ∈ es → p.codeOf? x = some g) ∧
      ∃ event ∈ es, event.Writes part key text := by
  obtain ⟨events, entries, -, -, hmain, hchronicle⟩ := final_chronicle h
  rcases hchronicle.written part key text hentry with hempty | ⟨event, hevent, hwrites⟩
  · cases part <;> cases hempty
  rcases mem_happened.1 hevent with hevent | ⟨e, he, hevent⟩
  · -- the main function registers nothing else
    have hallowed : ∀ action answer, event = .did action answer → p.MainAllows action := by
      rintro action answer rfl
      exact hmain action (List.mem_filterMap.2 ⟨_, hevent, rfl⟩)
    cases hwrites with
    | new =>
      cases hallowed _ _ rfl
      exact absurd rfl hpart
    | replaced => cases hallowed _ _ rfl
  · obtain ⟨hb, htook⟩ := hchronicle.took e he
    exact ⟨e.id, e.block, e.events, e.fragment, hchronicle.codeOf?_of_mem h he, hb, htook,
      fun x g hmade => hchronicle.codeOf?_of_asked h (mem_happened.2 (.inr ⟨e, he, hmade⟩)),
      event, hevent, hwrites⟩

/-- What holds of the code of a block given that it holds of the code that this is made of holds of
all code. -/
theorem codeOf?_induction {P : BlockId → Fragment → Prop}
    (step : ∀ id b es fragment, p.codeOf? id = some fragment → p.workspace.block? id = some b →
      p.Took id b es fragment →
      (∀ x g, .made x g ∈ es → p.codeOf? x = some g ∧ P x g) → P id fragment)
    {id : BlockId} {fragment : Fragment} (hcode : p.codeOf? id = some fragment) : P id fragment := by
  obtain ⟨b, es, hb, htook, hcodes, -⟩ := path_of_codeOf? h hcode
  refine step id b es fragment hcode hb htook fun x g hmade => ⟨hcodes x g hmade, ?_⟩
  have hreads : p.Reads id x :=
    ⟨b, hb, htook.asked.subset (List.mem_filterMap.2 ⟨_, hmade, rfl⟩)⟩
  -- a block comes before those that it reads
  have hlt := lt_of_reads h hreads
  have hsize : id < p.workspace.size := Workspace.lt_size_of_block? hb
  exact codeOf?_induction step (hcodes x g hmade)
termination_by p.workspace.size - id
decreasing_by exact Nat.sub_lt_sub_left hsize hlt

/-- The path of the main function gets the codes of the blocks that it asks for. -/
theorem path_of_mainBody : ∃ es, p.mainBody.Path es (p.run p.mainBody .empty).1 ∧
    (∀ e ∈ es, e.IsClosed) ∧ ∀ x g, .made x g ∈ es → p.codeOf? x = some g := by
  obtain ⟨events, entries, hpath, hclosed, -, hchronicle⟩ := final_chronicle h
  exact ⟨events, hpath, hclosed, fun x g hmem =>
    hchronicle.codeOf?_of_asked h (mem_happened.2 (.inl hmem))⟩

end BlockCompiler.Project
