import BlockCompiler.Proofs.Emission.History
import BlockCompiler.Proofs.Emission.Once

set_option autoImplicit false

/-! # Chronicles

In a program over a forest every block that is started is asked for by one path, and yields the code
that this path got. So the run of a program can be told as a set of paths that fit together: one for
each block that was started, and that of the main function. Every text that is registered in the end
and every diagnostic was written on one of these paths, and every text whose key was new when a path
registered it is there in the end. -/

namespace BlockCompiler

/-- An event wrote a text: its key was new, or the text came in place of an earlier setup. -/
inductive Event.Writes (part : Section) (key text : String) : Event → Prop
  | new : Writes part key text (.did (.register part key text) true)
  | replaced : part = .setups → Writes part key text (.did (.replaceSetup key text) ())

/-- An entry that is there after an action was there before, or the action wrote it. -/
theorem Action.mem_of_perform {c : Context} {action : Action} {part : Section} {key text : String}
    (h : (key, text) ∈ ((action.perform c).2.ledger part).entries) :
    (key, text) ∈ (c.ledger part).entries ∨
      Event.Writes part key text (.did action (action.perform c).1) := by
  cases action with
  | register part' key' text' =>
    rw [perform, ledger_withLedger] at h
    split at h
    · next hpart =>
      subst hpart
      cases hnew : (c.ledger part).contains key' with
      | true =>
        rw [Ledger.add, hnew, if_pos rfl] at h
        exact .inl h
      | false =>
        rcases Ledger.mem_add h with h | heq
        · exact .inl h
        · obtain ⟨rfl, rfl⟩ := Prod.mk.inj heq
          have hanswer : (perform c (.register part key text)).1 = true := by
            rw [perform, hnew]
            rfl
          rw [hanswer]
          exact .inr .new
    · exact .inl h
  | replaceSetup key' text' =>
    cases part with
    | setups =>
      rcases Ledger.mem_put h with h | heq
      · exact .inl h
      · obtain ⟨rfl, rfl⟩ := Prod.mk.inj heq
        exact .inr (.replaced rfl)
    | _ => exact .inl h
  | inferType name value =>
    cases hget : c.types.get? name <;> rw [perform, hget] at h <;> cases part <;> exact .inl h
  | setType name type => cases part <;> exact .inl h
  | setLength name length => cases part <;> exact .inl h
  | diagnose d => cases part <;> exact .inl h

namespace Project

variable {p : Project}

/-- All that happened: some events and those of the entries. -/
def happened (events : List Event) (entries : List Entry) : List Event :=
  events ++ entries.flatMap Entry.events

theorem mem_happened {events : List Event} {entries : List Entry} {event : Event} :
    event ∈ happened events entries ↔ event ∈ events ∨ ∃ e ∈ entries, event ∈ e.events := by
  rw [happened, List.mem_append, List.mem_flatMap]

/-- The records of state `t` are those of `s` together with what the events and the entries tell, and
the entries are the blocks that were asked for. -/
structure Chronicle (p : Project) (events : List Event) (entries : List Entry) (s t : Emission) :
    Prop where
  took : ∀ e ∈ entries,
    p.workspace.block? e.id = some e.block ∧ p.Took e.id e.block e.events e.fragment
  made : t.made = entries.map (fun e => (e.id, e.fragment)) ++ s.made
  asked : ∀ id fragment, .made id fragment ∈ happened events entries ↔
    ∃ e ∈ entries, e.id = id ∧ e.fragment = fragment
  diagnosed : ∀ d ∈ t.context.diagnostics, d ∈ s.context.diagnostics ∨
    .did (.diagnose d) () ∈ happened events entries
  written : ∀ part key text, (key, text) ∈ (t.context.ledger part).entries →
    (key, text) ∈ (s.context.ledger part).entries ∨
      ∃ event ∈ happened events entries, event.Writes part key text
  kept : ∀ part key text, part ≠ .setups → s.context.text? part key = some text →
    t.context.text? part key = some text
  stays : ∀ part key text, part ≠ .setups →
    .did (.register part key text) true ∈ happened events entries →
    t.context.text? part key = some text
  has : ∀ part key, t.context.has part key = true ↔ s.context.has part key = true ∨
    ∃ action answer, .did action answer ∈ happened events entries ∧ action.Registers part key

namespace Chronicle

variable {events events' : List Event} {entries entries' : List Entry} {s t u : Emission}

theorem refl (s : Emission) : p.Chronicle [] [] s s where
  took := nofun
  made := rfl
  asked _ _ := ⟨nofun, nofun⟩
  diagnosed _ h := .inl h
  written _ _ _ h := .inl h
  kept _ _ _ _ h := h
  stays _ _ _ _ h := nomatch h
  has part key := by simp [happened]

theorem perform (s : Emission) (action : Action) :
    p.Chronicle [.did action (s.perform action).1] [] s (s.perform action).2 where
  took := nofun
  made := rfl
  asked id fragment := by simp [happened]
  diagnosed d h := by
    rcases Emission.mem_perform_diagnostics h with h | rfl
    · exact .inl h
    · exact .inr List.mem_cons_self
  written part key text h :=
    (Action.mem_of_perform h).imp_right fun hwrites => ⟨_, List.mem_cons_self, hwrites⟩
  kept part key text hpart h := Action.text?_perform hpart h action
  stays part key text hpart h := by
    have heq := List.mem_singleton.1 h
    injection heq with haction hanswer
    subst haction
    exact Action.text?_of_register (eq_of_heq hanswer).symm
  has part key := by
    refine (Action.has_perform ..).trans (or_congr_right ⟨fun h => ?_, ?_⟩)
    · exact ⟨action, _, List.mem_cons_self, h⟩
    · rintro ⟨action', answer, hmem, hregisters⟩
      cases List.mem_singleton.1 hmem
      exact hregisters

/-- Drawing a number is on no record. -/
theorem drew (s : Emission) (n : Nat) :
    p.Chronicle [.drew n] [] s { s with names := s.names + 1 } where
  took := nofun
  made := rfl
  asked id fragment := by simp [happened]
  diagnosed _ h := .inl h
  written _ _ _ h := .inl h
  kept _ _ _ _ h := h
  stays _ _ _ _ h := nomatch List.mem_singleton.1 h
  has part key := by simp [happened]

theorem mem_happened_append {event : Event} :
    event ∈ happened (events ++ events') (entries' ++ entries) ↔
      event ∈ happened events entries ∨ event ∈ happened events' entries' := by
  simp only [mem_happened, List.mem_append]
  grind

/-- One chronicle after the other. -/
theorem trans (h : p.Chronicle events entries s t) (h' : p.Chronicle events' entries' t u) :
    p.Chronicle (events ++ events') (entries' ++ entries) s u where
  took e he := (List.mem_append.1 he).elim (h'.took e) (h.took e)
  made := by rw [List.map_append, List.append_assoc, h'.made, h.made]
  asked id fragment := by
    rw [mem_happened_append, h.asked, h'.asked]
    simp only [List.mem_append]
    grind
  diagnosed d hd := by
    simp only [mem_happened_append]
    rcases h'.diagnosed d hd with hd | hd
    · exact (h.diagnosed d hd).imp_right .inl
    · exact .inr (.inr hd)
  written part key text htext := by
    simp only [mem_happened_append]
    rcases h'.written part key text htext with htext | ⟨event, hevent, hwrites⟩
    · exact (h.written part key text htext).imp_right fun ⟨event, hevent, hwrites⟩ =>
        ⟨event, .inl hevent, hwrites⟩
    · exact .inr ⟨event, .inr hevent, hwrites⟩
  kept part key text hpart htext := h'.kept part key text hpart (h.kept part key text hpart htext)
  stays part key text hpart hevent := by
    rcases mem_happened_append.1 hevent with hevent | hevent
    · exact h'.kept part key text hpart (h.stays part key text hpart hevent)
    · exact h'.stays part key text hpart hevent
  has part key := by
    simp only [h'.has, h.has, mem_happened_append]
    grind

/-- The code of a block whose path is told. -/
theorem enclose {e : Entry} (hb : p.workspace.block? e.id = some e.block)
    (htook : p.Took e.id e.block e.events e.fragment)
    (h : p.Chronicle e.events entries (s.enter e.id) t) :
    p.Chronicle [.made e.id e.fragment] (e :: entries) s (t.leave e.id e.fragment) := by
  -- the events of the path are now those of an entry
  have hmem : ∀ event, event ∈ happened [.made e.id e.fragment] (e :: entries) ↔
      event = .made e.id e.fragment ∨ event ∈ happened e.events entries := by
    intro event
    simp [happened]
  exact {
    took e' he := by
      rcases List.mem_cons.1 he with rfl | he
      · exact ⟨hb, htook⟩
      · exact h.took e' he
    made := congrArg ((e.id, e.fragment) :: ·) h.made
    asked id fragment := by
      rw [hmem, h.asked, List.exists_mem_cons_iff]
      refine or_congr_left ⟨fun heq => ?_, ?_⟩
      · injection heq with hid hfragment
        exact ⟨hid.symm, hfragment.symm⟩
      · rintro ⟨rfl, rfl⟩
        rfl
    diagnosed d hd := (h.diagnosed d hd).imp_right fun hd => (hmem _).2 (.inr hd)
    written part key text htext := (h.written part key text htext).imp_right
      fun ⟨event, hevent, hwrites⟩ => ⟨event, (hmem event).2 (.inr hevent), hwrites⟩
    kept := h.kept
    stays part key text hpart hevent :=
      h.stays part key text hpart (((hmem _).1 hevent).resolve_left nofun)
    has part key := by
      have hhas := h.has part key
      simp only [hmem, reduceCtorEq, false_or]
      exact hhas }

end Chronicle

/-! ## Programs -/

/-- The code of a block has a chronicle, if all blocks that are being made come before the block. -/
def HasChronicle (p : Project) : Law := fun id s fragment t =>
  (∀ j : Nat, j ∈ s.active → j < id) → p.workspace.block? id ≠ none →
    ∃ entries, p.Chronicle [.made id fragment] entries s t

theorem steps_chronicle {active : List BlockId} {es : List Event} {s t : Emission}
    (hsteps : Emission.Steps p.HasChronicle active es s t)
    (hbefore : ∀ x : Nat, x ∈ Event.asked es → ∀ j : Nat, j ∈ active → j < x)
    (hblock : ∀ x ∈ Event.asked es, p.workspace.block? x ≠ none) :
    ∃ entries, p.Chronicle es entries s t := by
  induction hsteps with
  | nil s => exact ⟨[], .refl s⟩
  | @did s t es action _ ih =>
    obtain ⟨entries, h⟩ := ih hbefore hblock
    exact ⟨_, (Chronicle.perform s action).trans h⟩
  | @made s t u es id fragment hactive hlaw _ ih =>
    have hrest : ∀ x ∈ Event.asked es, x ∈ Event.asked (.made id fragment :: es) :=
      fun x hx => List.mem_cons_of_mem _ hx
    obtain ⟨entries, h⟩ := hlaw (fun j hj => hbefore id List.mem_cons_self j (hactive ▸ hj))
      (hblock id List.mem_cons_self)
    obtain ⟨entries', h'⟩ := ih (fun x hx => hbefore x (hrest x hx))
      (fun x hx => hblock x (hrest x hx))
    exact ⟨_, h.trans h'⟩
  | @drew s t es _ ih =>
    obtain ⟨entries, h⟩ := ih hbefore hblock
    exact ⟨_, (Chronicle.drew s s.names).trans h⟩

theorem block?_ne_none_of_takesPart {x : BlockId} (h : p.workspace.takesPart x = true) :
    p.workspace.block? x ≠ none := by
  obtain ⟨b, hb, -⟩ := Workspace.takesPart_eq_true_iff.1 h
  rw [hb]
  exact Option.some_ne_none b

section Forest

variable (h : p.workspace.IsForest p.workspace.top)

include h

theorem emit_hasChronicle (id : BlockId) (s : Emission) (hs : s.Nested p.workspace) :
    p.HasChronicle id s (p.emit id s).1 (p.emit id s).2 := by
  refine (emit_induction p.HasChronicle ?_ ?_ ?_ id s hs).2
  · intro id s hb _ hne
    exact absurd hb hne
  · intro id b s _ hid hbefore
    exact absurd (hbefore id hid) (Nat.lt_irrefl id)
  · intro id b s es fragment t hb _ htook hsteps hbefore _
    have hreads : ∀ x ∈ Event.asked es, p.Reads id x := fun x hx => ⟨b, hb, htook.asked.subset hx⟩
    obtain ⟨entries, hchronicle⟩ := steps_chronicle hsteps
      (fun x hx => before_of_reads h hbefore (hreads x hx))
      (fun x hx => block?_ne_none_of_takesPart (takesPart_of_reads (hreads x hx)))
    exact ⟨_, hchronicle.enclose (e := ⟨id, b, es, fragment⟩) hb htook⟩

/-- The chronicle of a program, told from the path of its main function. -/
theorem final_chronicle : ∃ es entries, p.mainBody.Path es (p.run p.mainBody .empty).1 ∧
    (∀ e ∈ es, e.IsClosed) ∧ (∀ action ∈ Event.actions es, p.MainAllows action) ∧
      p.Chronicle es entries .empty p.final := by
  obtain ⟨es, hpath, hsteps, hclosed, hasked, hallowed⟩ := final_steps (emit_hasChronicle h)
  have htakes : ∀ x ∈ Event.asked es, p.workspace.takesPart x = true := by
    intro x hx
    obtain ⟨id, hid, hx⟩ := List.mem_flatMap.1 (hasked.subset hx)
    exact (of_mem_stackReads h hid hx).2
  obtain ⟨entries, hchronicle⟩ := steps_chronicle hsteps (fun _ _ _ hj => nomatch hj)
    fun x hx => block?_ne_none_of_takesPart (htakes x hx)
  exact ⟨es, entries, hpath, hclosed, hallowed, hchronicle⟩

end Forest

namespace Chronicle

variable {events : List Event} {entries : List Entry} (h : p.workspace.IsForest p.workspace.top)
  (hchronicle : p.Chronicle events entries .empty p.final)

include h hchronicle

/-- Each block has one entry. -/
theorem nodup : (entries.map Entry.id).Nodup := by
  obtain ⟨entries', actions, hhistory, -⟩ := p.final_history
  have hstarted := hhistory.started_perm.nodup_iff.1 (final_started h).1
  have hmade : entries.map (fun e => (e.id, e.fragment)) =
      entries'.map fun e => (e.id, e.fragment) := by
    rw [← hhistory.made_eq, hchronicle.made]
    exact (List.append_nil _).symm
  have hids := congrArg (List.map Prod.fst) hmade
  rw [List.map_map, List.map_map] at hids
  exact (congrArg List.Nodup hids).mpr hstarted

theorem codeOf?_of_mem {e : Entry} (he : e ∈ entries) : p.codeOf? e.id = some e.fragment := by
  have hmade : p.final.made = entries.map fun e => (e.id, e.fragment) :=
    hchronicle.made.trans (List.append_nil _)
  obtain ⟨front, back, hentries⟩ := List.append_of_mem he
  have hnodup := hchronicle.nodup h
  rw [hentries, List.map_append, List.map_cons] at hnodup
  rw [hentries, List.map_append, List.map_cons] at hmade
  refine List.lookup_eq_some_iff.2 ⟨_, _, hmade, fun pair hpair => ?_⟩
  obtain ⟨e', he', rfl⟩ := List.mem_map.1 hpair
  have hne := (List.nodup_append.1 hnodup).2.2 e'.id (List.mem_map_of_mem he') e.id
    List.mem_cons_self
  exact bne_iff_ne.2 hne.symm

omit h in
/-- The code of a block is that of its entry. -/
theorem exists_entry {id : BlockId} {fragment : Fragment} (hcode : p.codeOf? id = some fragment) :
    ∃ e ∈ entries, e.id = id ∧ e.fragment = fragment := by
  have hmade : p.final.made = entries.map fun e => (e.id, e.fragment) :=
    hchronicle.made.trans (List.append_nil _)
  have hmem := mem_made_of_codeOf? hcode
  rw [hmade] at hmem
  obtain ⟨e, he, heq⟩ := List.mem_map.1 hmem
  obtain ⟨hid, hfragment⟩ := Prod.mk.inj heq
  exact ⟨e, he, hid, hfragment⟩

/-- What is asked for is the code of the block. -/
theorem codeOf?_of_asked {id : BlockId} {fragment : Fragment}
    (hasked : .made id fragment ∈ happened events entries) : p.codeOf? id = some fragment := by
  obtain ⟨e, he, rfl, rfl⟩ := (hchronicle.asked id fragment).1 hasked
  exact hchronicle.codeOf?_of_mem h he

end Chronicle

end Project

end BlockCompiler
