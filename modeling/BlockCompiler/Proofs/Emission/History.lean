import BlockCompiler.Proofs.Context
import BlockCompiler.Proofs.Emission.Program

set_option autoImplicit false

/-! # Histories

What happened between two states of an emission: the recipes that were carried out, each with the
path that it took, and the actions that were taken besides. All records of the later state, that is
which blocks were started, which code was made, which keys were registered and which diagnostics were
recorded, can be told from the history and the earlier state. -/

namespace BlockCompiler

/-- A recipe that was carried out: its block, the path that it took and the code that it yielded. -/
structure Entry where
  id : BlockId
  block : Block
  events : List Event
  fragment : Fragment

/-- The actions that the recipe took itself. -/
def Entry.actions (e : Entry) : List Action := Event.actions e.events

namespace Project

/-- The records of state `t` are those of `s` together with those of the entries, latest first, and
of the actions. -/
structure History (p : Project) (entries : List Entry) (actions : List Action) (s t : Emission) :
    Prop where
  took : ∀ e ∈ entries,
    p.workspace.block? e.id = some e.block ∧ p.Took e.id e.block e.events e.fragment
  started : t.started.Perm (entries.map Entry.id ++ s.started)
  made : t.made = entries.map (fun e => (e.id, e.fragment)) ++ s.made
  diagnostics : t.context.diagnostics.Perm (s.context.diagnostics ++
    (actions ++ entries.flatMap Entry.actions).filterMap Action.diagnostic?)
  has : ∀ part key, t.context.has part key = true ↔ s.context.has part key = true ∨
    ∃ action ∈ actions ++ entries.flatMap Entry.actions, action.Registers part key

namespace History

variable {p : Project} {entries entries' : List Entry} {actions actions' : List Action}
  {s t u : Emission}

theorem refl (s : Emission) : p.History [] [] s s where
  took := nofun
  started := List.Perm.refl _
  made := rfl
  diagnostics := by simp
  has := by simp

theorem perform (s : Emission) (action : Action) : p.History [] [action] s (s.perform action).2 where
  took := nofun
  started := List.Perm.refl _
  made := rfl
  diagnostics := by
    rw [Emission.perform_diagnostics]
    cases action <;> simp [Action.diagnostic?, List.filterMap_cons]
  has part key := by
    rw [show (s.perform action).2.context = (action.perform s.context).2 from rfl,
      Action.has_perform]
    simp

/-- One history after the other. -/
theorem trans (h : p.History entries actions s t) (h' : p.History entries' actions' t u) :
    p.History (entries' ++ entries) (actions ++ actions') s u where
  took e he := (List.mem_append.1 he).elim (h'.took e) (h.took e)
  started := by
    rw [List.map_append, List.append_assoc]
    exact h'.started.trans (h.started.append_left _)
  made := by rw [List.map_append, List.append_assoc, h'.made, h.made]
  diagnostics := by
    refine h'.diagnostics.trans ((h.diagnostics.append_right _).trans ?_)
    simp only [List.flatMap_append, List.filterMap_append, List.append_assoc]
    refine (List.perm_append_left_iff _).2 ((List.perm_append_left_iff _).2 ?_)
    -- the entries of the first history come last, behind all of the second one
    rw [← List.append_assoc (List.filterMap _ actions')]
    exact List.perm_append_comm
  has part key := by
    rw [h'.has, h.has]
    simp only [List.flatMap_append, List.mem_append]
    grind

/-- The order of the actions does not matter. -/
theorem perm (h : p.History entries actions s t) (hperm : actions.Perm actions') :
    p.History entries actions' s t where
  took := h.took
  started := h.started
  made := h.made
  diagnostics := by
    refine h.diagnostics.trans ((List.perm_append_left_iff _).2 (List.Perm.filterMap _ ?_))
    exact hperm.append_right _
  has part key := by
    rw [h.has]
    simp only [(hperm.append_right _).mem_iff]

/-- Drawing a number is on no record. -/
theorem of_names {n : Nat} (h : p.History entries actions { s with names := n } t) :
    p.History entries actions s t :=
  ⟨h.took, h.started, h.made, h.diagnostics, h.has⟩

theorem enclosed_perm (e : Entry) : (e.actions ++ actions ++ entries.flatMap Entry.actions).Perm
    (actions ++ (e :: entries).flatMap Entry.actions) := by
  rw [List.append_assoc, List.flatMap_cons]
  exact List.perm_append_comm_assoc _ _ _

/-- A recipe that was carried out on the way becomes an entry. -/
theorem enclose {e : Entry} (hb : p.workspace.block? e.id = some e.block)
    (htook : p.Took e.id e.block e.events e.fragment)
    (h : p.History entries (e.actions ++ actions) (s.enter e.id) t) :
    p.History (e :: entries) actions s (t.leave e.id e.fragment) where
  took e' he := by
    rcases List.mem_cons.1 he with rfl | he
    · exact ⟨hb, htook⟩
    · exact h.took e' he
  started := h.started.trans List.perm_middle
  made := congrArg ((e.id, e.fragment) :: ·) h.made
  diagnostics := by
    refine h.diagnostics.trans ((List.perm_append_left_iff _).2 (List.Perm.filterMap _ ?_))
    exact enclosed_perm e
  has part key := by
    refine (h.has part key).trans ?_
    simp only [(enclosed_perm e).mem_iff]
    exact Iff.rfl

/-! From the empty emission on, there is nothing on record but what the entries put there. -/

section Empty

variable (h : p.History entries actions .empty t)

include h

theorem started_perm : t.started.Perm (entries.map Entry.id) := by
  have hperm : t.started.Perm (entries.map Entry.id ++ []) := h.started
  rwa [List.append_nil] at hperm

theorem mem_started {id : BlockId} : id ∈ t.started ↔ ∃ e ∈ entries, e.id = id := by
  rw [h.started_perm.mem_iff, List.mem_map]

theorem made_eq : t.made = entries.map fun e => (e.id, e.fragment) := by
  have hmade : t.made = entries.map (fun e => (e.id, e.fragment)) ++ [] := h.made
  rwa [List.append_nil] at hmade

end Empty

end History

/-! ## Telling the history -/

/-- The warning about a block that is connected to itself. -/
def selfConnectedWarning (b : Block) : Diagnostic :=
  { severity := .warning, blockId := b.id, blockType := b.type
    message := "Block is connected to itself; skipped." }

theorem selfConnectedWarning_message (b : Block) :
    (selfConnectedWarning b).message = "Block is connected to itself; skipped." := rfl

/-- The code of a block has a history; besides those of recipes it has warnings about blocks that are
connected to themselves. -/
def HasHistory (p : Project) : Law := fun _ s _ t =>
  ∃ entries actions, p.History entries actions s t ∧
    ∀ action ∈ actions, ∃ b, action = .diagnose (selfConnectedWarning b)

variable {p : Project}

theorem steps_history {active : List BlockId} {es : List Event} {s t : Emission}
    (h : Emission.Steps p.HasHistory active es s t) :
    ∃ entries actions, p.History entries (Event.actions es ++ actions) s t ∧
      ∀ action ∈ actions, ∃ b, action = .diagnose (selfConnectedWarning b) := by
  induction h with
  | nil s => exact ⟨[], [], .refl s, nofun⟩
  | @did s t es action _ ih =>
    obtain ⟨entries, actions, hhistory, hactions⟩ := ih
    refine ⟨entries, actions, ?_, hactions⟩
    have htrans := (History.perform s action).trans hhistory
    rwa [List.append_nil] at htrans
  | drew _ ih =>
    obtain ⟨entries, actions, hhistory, hactions⟩ := ih
    exact ⟨entries, actions, hhistory.of_names, hactions⟩
  | made _ hlaw _ ih =>
    obtain ⟨entries, actions, hhistory, hactions⟩ := hlaw
    obtain ⟨entries', actions', hhistory', hactions'⟩ := ih
    refine ⟨entries' ++ entries, actions ++ actions', ?_, fun action haction => ?_⟩
    · exact (hhistory.trans hhistory').perm (List.perm_append_comm_assoc _ _ _)
    · rcases List.mem_append.1 haction with haction | haction
      · exact hactions action haction
      · exact hactions' action haction

theorem emit_hasHistory (id : BlockId) (s : Emission) (hs : s.Nested p.workspace) :
    p.HasHistory id s (p.emit id s).1 (p.emit id s).2 := by
  refine (emit_induction p.HasHistory ?_ ?_ ?_ id s hs).2
  · exact fun id s _ => ⟨[], [], .refl s, nofun⟩
  · intro id b s _ _
    refine ⟨[], [.diagnose (selfConnectedWarning b)], ?_, fun action haction => ?_⟩
    · exact History.perform s (.diagnose (selfConnectedWarning b))
    · exact ⟨b, List.mem_singleton.1 haction⟩
  · intro id b s es fragment t hb _ htook hsteps
    obtain ⟨entries, actions, hhistory, hactions⟩ := steps_history hsteps
    exact ⟨_, actions, History.enclose (e := ⟨id, b, es, fragment⟩) hb htook hhistory, hactions⟩

/-- A program has a history from the empty emission on. -/
theorem final_history : ∃ entries actions, p.History entries actions .empty p.final ∧
    ∀ action ∈ actions, p.MainAllows action ∨
      ∃ b, action = .diagnose (selfConnectedWarning b) := by
  obtain ⟨es, -, hsteps, -, -, hallowed⟩ := final_steps emit_hasHistory
  obtain ⟨entries, actions, hhistory, hactions⟩ := steps_history hsteps
  refine ⟨entries, _, hhistory, fun action haction => ?_⟩
  rcases List.mem_append.1 haction with haction | haction
  · exact .inl (hallowed action haction)
  · exact .inr (hactions action haction)

/-- A diagnostic of the program is about a stack that runs into itself or about a block that is connected
to itself, or the recipe of a block records it. -/
theorem recorded_of_mem_diagnostics {d : Diagnostic} (h : d ∈ p.compile.diagnostics) :
    d.message = Emit.cyclicMessage ∨ (∃ b, d = selfConnectedWarning b) ∨
      ∃ id b es fragment, p.workspace.block? id = some b ∧ p.Took id b es fragment ∧
        .did (.diagnose d) () ∈ es := by
  obtain ⟨entries, actions, hhistory, hactions⟩ := p.final_history
  rw [compile_diagnostics, hhistory.diagnostics.mem_iff] at h
  rcases List.mem_append.1 h with hempty | h
  · cases hempty
  obtain ⟨action, haction, heq⟩ := List.mem_filterMap.1 h
  obtain rfl : action = .diagnose d := by
    cases action with
    | diagnose d' => exact congrArg Action.diagnose (Option.some_inj.1 heq)
    | _ => cases heq
  rcases List.mem_append.1 haction with haction | haction
  · rcases hactions _ haction with hmain | ⟨b, hself⟩
    · cases hmain with
      | cyclic _ _ hmessage => exact .inl hmessage
    · exact .inr (.inl ⟨b, Action.diagnose.inj hself⟩)
  · obtain ⟨e, he, haction⟩ := List.mem_flatMap.1 haction
    obtain ⟨hb, htook⟩ := hhistory.took e he
    obtain ⟨event, hevent, hdid⟩ := List.mem_filterMap.1 haction
    cases event with
    | did action answer =>
      obtain rfl : action = .diagnose d := Option.some_inj.1 hdid
      exact .inr (.inr ⟨e.id, e.block, e.events, e.fragment, hb, htook, hevent⟩)
    | _ => cases hdid

/-- A key that is registered in the program is registered by a block, unless it is that of the library
that every program includes. -/
theorem exists_took_of_has {part : Section} {key : String}
    (hkey : (part, key) ≠ (.includes, "simpletools")) (h : p.final.context.has part key = true) :
    ∃ id b es fragment, id ∈ p.final.started ∧ p.workspace.block? id = some b ∧
      p.Took id b es fragment ∧ ∃ action ∈ Event.actions es, action.Registers part key := by
  obtain ⟨entries, actions, hhistory, hactions⟩ := p.final_history
  -- nothing is registered at first, and the main function registers another key
  rcases (hhistory.has part key).1 h with hempty | ⟨action, haction, hregisters⟩
  · cases part <;> cases hempty
  rcases List.mem_append.1 haction with haction | haction
  · rcases hactions action haction with hmain | ⟨b, rfl⟩
    · cases hmain with
      | library =>
        obtain ⟨rfl, rfl⟩ := hregisters
        exact absurd rfl hkey
      | cyclic => exact hregisters.elim
    · exact hregisters.elim
  · obtain ⟨e, he, haction⟩ := List.mem_flatMap.1 haction
    obtain ⟨hb, htook⟩ := hhistory.took e he
    refine ⟨e.id, e.block, e.events, e.fragment, ?_, hb, htook, action, haction, hregisters⟩
    exact hhistory.mem_started.2 ⟨e, he, rfl⟩

/-! ## Code -/

/-- The code that was made for a block. -/
def codeOf? (p : Project) (id : BlockId) : Option Fragment := p.final.made.lookup id

/-- Every block whose recipe is started gets code. -/
theorem exists_codeOf?_of_started {id : BlockId} (h : id ∈ p.final.started) :
    ∃ fragment, p.codeOf? id = some fragment := by
  obtain ⟨entries, actions, hhistory, -⟩ := p.final_history
  obtain ⟨e, he, rfl⟩ := hhistory.mem_started.1 h
  refine Option.isSome_iff_exists.1 (List.lookup_isSome_iff.2 ?_)
  refine ⟨(e.id, e.fragment), ?_, beq_self_eq_true _⟩
  rw [hhistory.made_eq]
  exact List.mem_map_of_mem he

section CodeOf

variable {id : BlockId} {fragment : Fragment} (h : p.codeOf? id = some fragment)

include h

theorem mem_made_of_codeOf? : (id, fragment) ∈ p.final.made := by
  obtain ⟨front, back, hmade, -⟩ := List.lookup_eq_some_iff.1 h
  rw [hmade]
  exact List.mem_append_right _ List.mem_cons_self

/-- The code of a block is the outcome of an entry. -/
theorem exists_entry_of_codeOf? : ∃ entries actions, p.History entries actions .empty p.final ∧
    ∃ e ∈ entries, e.id = id ∧ e.fragment = fragment := by
  obtain ⟨entries, actions, hhistory, -⟩ := p.final_history
  have hmem := mem_made_of_codeOf? h
  rw [hhistory.made_eq] at hmem
  obtain ⟨e, he, heq⟩ := List.mem_map.1 hmem
  obtain ⟨hid, hfragment⟩ := Prod.mk.inj heq
  exact ⟨entries, actions, hhistory, e, he, hid, hfragment⟩

theorem started_of_codeOf? : id ∈ p.final.started := by
  obtain ⟨entries, actions, hhistory, e, he, hid, -⟩ := exists_entry_of_codeOf? h
  exact hhistory.mem_started.2 ⟨e, he, hid⟩

/-- The code of a block comes of a path of its recipe. -/
theorem took_of_codeOf? : ∃ b es, p.workspace.block? id = some b ∧ p.Took id b es fragment := by
  obtain ⟨entries, actions, hhistory, e, he, rfl, rfl⟩ := exists_entry_of_codeOf? h
  exact ⟨e.block, e.events, hhistory.took e he⟩

/-- What every path of a block to its code registers is registered in the program. -/
theorem has_of_codeOf? {part : Section} {key : String}
    (hregisters : ∀ b es, p.workspace.block? id = some b → p.Took id b es fragment →
      ∃ action ∈ Event.actions es, action.Registers part key) :
    p.final.context.has part key = true := by
  obtain ⟨entries, actions, hhistory, e, he, rfl, rfl⟩ := exists_entry_of_codeOf? h
  obtain ⟨hb, htook⟩ := hhistory.took e he
  obtain ⟨action, haction, hkey⟩ := hregisters e.block e.events hb htook
  refine (hhistory.has part key).2 (.inr ⟨action, List.mem_append_right _ ?_, hkey⟩)
  exact List.mem_flatMap.2 ⟨e, he, haction⟩

end CodeOf

end Project

end BlockCompiler
