import BlockCompiler.Proofs.Emission.History
import BlockCompiler.Proofs.Recipe.Draw

set_option autoImplicit false

/-! # The record of an emission

A history says that there are entries. Here they are computed: a recipe is carried out and told at the
same time, with its own events and the entries of all recipes that were carried out on the way. What is
told is what happened. Each entry took a path of its block's recipe, the code of the entries is the code
that was made, and the events and entries together drew every number that was given out exactly once. -/

namespace BlockCompiler

/-- The numbers that the recipe drew itself. -/
def Entry.drawn (e : Entry) : List Nat := Event.drawn e.events

namespace Emission

/-! ## Numbers given out -/

/-- The numbers are those that were given out between two states, each once. -/
structure GivenOut (ns : List Nat) (s t : Emission) : Prop where
  names : t.names = s.names + ns.length
  perm : ns.Perm (List.range' s.names ns.length)

namespace GivenOut

variable {ns ms : List Nat} {s t u : Emission}

theorem nil (h : t.names = s.names) : GivenOut [] s t := ⟨h, List.Perm.refl []⟩

theorem append (h : GivenOut ns s t) (h' : GivenOut ms t u) : GivenOut (ns ++ ms) s u where
  names := by rw [h'.names, h.names, List.length_append, Nat.add_assoc]
  perm := by
    have hms := h'.perm
    rw [h.names] at hms
    rw [List.length_append, ← List.range'_append_1]
    exact h.perm.append hms

/-- The next number comes first. -/
theorem cons (h : GivenOut ns { s with names := s.names + 1 } t) : GivenOut (s.names :: ns) s t := by
  have hfirst : GivenOut [s.names] s { s with names := s.names + 1 } := ⟨rfl, List.Perm.refl _⟩
  exact hfirst.append h

theorem of_perm (h : GivenOut ns s t) (hperm : ns.Perm ms) : GivenOut ms s t where
  names := by rw [h.names, hperm.length_eq]
  perm := by
    rw [← hperm.length_eq]
    exact hperm.symm.trans h.perm

theorem nodup (h : GivenOut ns s t) : ns.Nodup := h.perm.nodup_iff.2 List.nodup_range'

end GivenOut

end Emission

/-! ## Telling -/

/-- The events of a recipe that is carried out, and the entries told of the blocks that it asks for. -/
def Recipe.tell {α : Type} (code : BlockId → Emission → Fragment × Emission)
    (entries : BlockId → Emission → List Entry) : Recipe α → Emission → List Event × List Entry
  | .done _, _ => ([], [])
  | .act action next, s =>
    let (answer, s) := s.perform action
    let (es, told) := (next answer).tell code entries s
    (.did action answer :: es, told)
  | .emit id next, s =>
    let (fragment, t) := code id s
    let (es, told) := (next fragment).tell code entries t
    (.made id fragment :: es, entries id s ++ told)
  | .fresh next, s =>
    let (es, told) := (next s.names).tell code entries { s with names := s.names + 1 }
    (.drew s.names :: es, told)
  | .overflow next, s => next.tell code entries s

/-- What is told of a recipe is the path that it took. -/
theorem Recipe.tell_path {α : Type} (code : BlockId → Emission → Fragment × Emission)
    (entries : BlockId → Emission → List Entry) (r : Recipe α) (s : Emission) :
    r.Path (r.tell code entries s).1 (r.run code s).1 := by
  induction r generalizing s with
  | done a => exact .done a
  | act action next ih => exact .act _ (ih _ _)
  | emit id next ih => exact .emit _ (ih _ _)
  | fresh next ih => exact .fresh _ (ih _ _)
  | overflow next ih => exact .overflow (ih _)

namespace Project

/-- The entries of a block's code, nested at most `depth` deep. -/
def entriesWithin (p : Project) : Nat → BlockId → Emission → List Entry
  | 0, _, _ => []
  | depth + 1, id, s =>
    match p.workspace.block? id with
    | none => []
    | some b =>
      if s.active.contains id then
        []
      else
        let code := p.emitWithin depth
        let (events, told) := (Emit.recipe p id b).tell code (p.entriesWithin depth) (s.enter id)
        ⟨id, b, events, ((Emit.recipe p id b).run code (s.enter id)).1⟩ :: told

/-- The entries of a program. -/
def entries (p : Project) : List Entry :=
  (p.mainBody.tell p.emit (p.entriesWithin (p.workspace.size + 1)) .empty).2

/-! ## What is told is true -/

/-- Between two states, a recipe's own events and the entries are all that happened. -/
structure Told (p : Project) (es : List Event) (entries : List Entry) (s t : Emission) : Prop where
  took : ∀ e ∈ entries, p.workspace.block? e.id = some e.block ∧
    (Emit.recipe p e.id e.block).Path e.events e.fragment
  made : t.made.Perm (entries.map (fun e => (e.id, e.fragment)) ++ s.made)
  drawn : Emission.GivenOut (Event.drawn es ++ entries.flatMap Entry.drawn) s t

namespace Told

variable {p : Project} {es : List Event} {entries entries' : List Entry} {s t u : Emission}

theorem nil (hmade : t.made = s.made) (hnames : t.names = s.names) : p.Told [] [] s t where
  took := nofun
  made := List.Perm.of_eq hmade
  drawn := .nil hnames

theorem did {action : Action} {answer : action.Answer}
    (h : p.Told es entries (s.perform action).2 t) :
    p.Told (.did action answer :: es) entries s t :=
  ⟨h.took, h.made, h.drawn.names, h.drawn.perm⟩

theorem drew (h : p.Told es entries { s with names := s.names + 1 } t) :
    p.Told (.drew s.names :: es) entries s t := ⟨h.took, h.made, h.drawn.cons⟩

theorem asked {id : BlockId} {fragment : Fragment} (h : p.Told [] entries s t)
    (h' : p.Told es entries' t u) :
    p.Told (.made id fragment :: es) (entries ++ entries') s u where
  took e he := (List.mem_append.1 he).elim (h.took e) (h'.took e)
  made := by
    rw [List.map_append, List.append_assoc]
    refine h'.made.trans ((h.made.append_left _).trans ?_)
    exact List.perm_append_comm_assoc _ _ _
  drawn := by
    refine (h.drawn.append h'.drawn).of_perm ?_
    rw [List.flatMap_append]
    exact List.perm_append_comm_assoc _ _ _

/-- A recipe that was carried out becomes an entry. -/
theorem enclose {id : BlockId} {b : Block} {fragment : Fragment}
    (hb : p.workspace.block? id = some b) (hpath : (Emit.recipe p id b).Path es fragment)
    (h : p.Told es entries (s.enter id) t) :
    p.Told [] (⟨id, b, es, fragment⟩ :: entries) s (t.leave id fragment) where
  took e he := by
    rcases List.mem_cons.1 he with rfl | he
    · exact ⟨hb, hpath⟩
    · exact h.took e he
  made := h.made.cons (id, fragment)
  drawn := ⟨h.drawn.names, h.drawn.perm⟩

end Told

variable {p : Project}

theorem tell_told {code : BlockId → Emission → Fragment × Emission}
    {entries : BlockId → Emission → List Entry}
    (h : ∀ id s, p.Told [] (entries id s) s (code id s).2) {α : Type} (r : Recipe α)
    (s : Emission) :
    p.Told (r.tell code entries s).1 (r.tell code entries s).2 s (r.run code s).2 := by
  induction r generalizing s with
  | done a => exact .nil rfl rfl
  | act action next ih => exact .did (ih _ _)
  | emit id next ih => exact (h id s).asked (ih _ _)
  | fresh next ih => exact .drew (ih _ _)
  | overflow next ih => exact ih _

theorem entriesWithin_told (depth : Nat) (id : BlockId) (s : Emission) :
    p.Told [] (p.entriesWithin depth id s) s (p.emitWithin depth id s).2 := by
  induction depth generalizing id s with
  | zero =>
    unfold entriesWithin emitWithin
    cases p.workspace.block? id with
    | none => exact .nil rfl rfl
    | some b => exact .nil rfl rfl
  | succ depth ih =>
    unfold entriesWithin emitWithin
    cases hb : p.workspace.block? id with
    | none => exact .nil rfl rfl
    | some b =>
      dsimp only
      split
      · exact .nil rfl rfl
      · exact .enclose hb (Recipe.tell_path _ _ _ _) (tell_told ih _ _)

/-- The entries of a program are what happened, besides the events of the main function. -/
theorem entries_told (p : Project) : ∃ es, p.mainBody.Path es (p.run p.mainBody .empty).1 ∧
    p.Told es p.entries .empty p.final :=
  ⟨_, Recipe.tell_path _ _ _ _, tell_told (entriesWithin_told _) _ _⟩

end Project

end BlockCompiler
