import BlockCompiler.Emission
import Mathlib.Data.List.Nodup
import Mathlib.Data.List.Perm.Subperm

set_option autoImplicit false

/-! # Nesting of emissions

`Project.emitWithin` counts down a depth so that it is structural. This file shows that the depth
hides nothing: the stack of active blocks holds each block once, so it is never longer than the
workspace, and with one level more than there are blocks the last level is never reached. What is
left are three equations for `Project.emit` in which no depth occurs: one for a number without a
block, one for a block that is connected to itself and one for every other block. -/

namespace BlockCompiler

/-! ## Running recipes -/

namespace Recipe

variable {α β : Type} (code : BlockId → Emission → Fragment × Emission)

theorem run_bind (r : Recipe α) (f : α → Recipe β) (s : Emission) :
    (r >>= f).run code s = (f (r.run code s).1).run code (r.run code s).2 := by
  show (r.bind f).run code s = _
  induction r generalizing s with
  | done value => rfl
  | act action next ih => exact ih _ _
  | emit id next ih => exact ih _ _
  | fresh next ih => exact ih _ _
  | overflow next ih => exact ih _

/-- A recipe leaves the stack of active blocks as the code of blocks leaves it. -/
theorem run_active (h : ∀ id s, (code id s).2.active = s.active) (r : Recipe α) (s : Emission) :
    (r.run code s).2.active = s.active := by
  induction r generalizing s with
  | done value => rfl
  | act action next ih => exact ih _ _
  | emit id next ih => exact (ih _ _).trans (h id s)
  | fresh next ih => exact ih _ _
  | overflow next ih => exact ih _

/-- A recipe does the same with two ways to make code that agree while its own blocks are active. -/
theorem run_congr (code' : BlockId → Emission → Fragment × Emission) (active : List BlockId)
    (keeps : ∀ id s, (code id s).2.active = s.active)
    (agree : ∀ id s, s.active = active → code id s = code' id s) (r : Recipe α) (s : Emission)
    (hs : s.active = active) : r.run code s = r.run code' s := by
  induction r generalizing s with
  | done value => rfl
  | act action next ih => exact ih _ _ hs
  | emit id next ih =>
    show (next (code id s).1).run code (code id s).2 = (next (code' id s).1).run code' (code' id s).2
    rw [← agree id s hs]
    exact ih _ _ ((keeps id s).trans hs)
  | fresh next ih => exact ih _ _ hs
  | overflow next ih => exact ih _ hs

end Recipe

/-! ## The stack of active blocks -/

/-- The stack of active blocks holds blocks of the workspace, each of them once. -/
structure Emission.Nested (w : Workspace) (s : Emission) : Prop where
  nodup : s.active.Nodup
  valid : ∀ id ∈ s.active, id < w.size

theorem Emission.Nested.empty (w : Workspace) : Emission.empty.Nested w :=
  ⟨List.nodup_nil, fun _ h => absurd h List.not_mem_nil⟩

theorem Emission.Nested.of_active_eq {w : Workspace} {s t : Emission} (h : s.Nested w)
    (he : t.active = s.active) : t.Nested w :=
  ⟨he ▸ h.nodup, he ▸ h.valid⟩

/-- There are never more active blocks than blocks. -/
theorem Emission.Nested.length_le {w : Workspace} {s : Emission} (h : s.Nested w) :
    s.active.length ≤ w.size := by
  have hsub : s.active ⊆ List.range w.size := fun id hid => List.mem_range.2 (h.valid id hid)
  simpa using (h.nodup.subperm hsub).length_le

theorem Workspace.lt_size_of_block? {w : Workspace} {id : BlockId} {b : Block}
    (h : w.block? id = some b) : id < w.size := by
  obtain ⟨hlt, -⟩ := Array.getElem?_eq_some_iff.1 h
  exact hlt

theorem Emission.Nested.enter {w : Workspace} {s : Emission} (h : s.Nested w) {id : BlockId}
    {b : Block} (hb : w.block? id = some b) (hid : id ∉ s.active) : (s.enter id).Nested w where
  nodup := List.nodup_cons.2 ⟨hid, h.nodup⟩
  valid := by
    intro j hj
    rcases List.mem_cons.1 hj with rfl | hj
    · exact w.lt_size_of_block? hb
    · exact h.valid j hj

/-! ## Depth -/

namespace Project

variable (p : Project)

/-- Making code leaves the stack of active blocks as it was. -/
theorem emitWithin_active (depth : Nat) (id : BlockId) (s : Emission) :
    (p.emitWithin depth id s).2.active = s.active := by
  induction depth generalizing id s with
  | zero =>
    unfold emitWithin
    split
    · rfl
    · exact Recipe.run_active _ (fun _ _ => rfl) _ _
  | succ depth ih =>
    unfold emitWithin
    split
    · rfl
    · split
      · exact Recipe.run_active _ ih _ _
      · exact congrArg List.tail (Recipe.run_active _ ih _ (s.enter id))

/-- Two depths that suffice for the blocks that are not active yet make the same code. -/
theorem emitWithin_congr (depth depth' : Nat) (id : BlockId) (s : Emission)
    (hs : s.Nested p.workspace) (h : p.workspace.size < depth + s.active.length)
    (h' : p.workspace.size < depth' + s.active.length) :
    p.emitWithin depth id s = p.emitWithin depth' id s := by
  induction depth generalizing depth' id s with
  | zero => exact absurd hs.length_le (by omega)
  | succ depth ih =>
    cases depth' with
    | zero => exact absurd hs.length_le (by omega)
    | succ depth' =>
      unfold emitWithin
      split
      · rfl
      · next b hb =>
        split
        · rfl
        · next hid =>
          have hid : id ∉ s.active := by simpa using hid
          have hlen : (s.enter id).active.length = s.active.length + 1 := rfl
          have hrun := Recipe.run_congr _ (p.emitWithin depth') (s.enter id).active
            (p.emitWithin_active depth)
            (fun j t ht => ih depth' j t ((hs.enter hb hid).of_active_eq ht)
              (by rw [ht]; omega) (by rw [ht]; omega)) (Emit.recipe p id b) (s.enter id) rfl
          rw [hrun]

/-- Making code leaves the stack of active blocks as it was. -/
theorem emit_active (id : BlockId) (s : Emission) : (p.emit id s).2.active = s.active :=
  p.emitWithin_active _ id s

/-- A recipe leaves the stack of active blocks as it was. -/
theorem run_active {α : Type} (r : Recipe α) (s : Emission) :
    (p.run r s).2.active = s.active :=
  Recipe.run_active p.emit p.emit_active r s

variable {p}

/-- With the depth that is left inside of a block, code is made as outside of all blocks. -/
theorem run_emitWithin {α : Type} {s : Emission} (hs : s.Nested p.workspace)
    (hpos : 0 < s.active.length) (r : Recipe α) :
    r.run (p.emitWithin p.workspace.size) s = p.run r s :=
  Recipe.run_congr _ p.emit s.active (p.emitWithin_active _)
    (fun j t ht => p.emitWithin_congr _ _ j t (hs.of_active_eq ht) (by rw [ht]; omega)
      (by rw [ht]; omega)) r s rfl

/-! ## Running recipes of a project -/

@[simp] theorem run_pure {α : Type} (a : α) (s : Emission) : p.run (pure a) s = (a, s) := rfl

@[simp] theorem run_code (id : BlockId) (s : Emission) : p.run (Recipe.code id) s = p.emit id s :=
  rfl

@[simp] theorem run_bind {α β : Type} (r : Recipe α) (f : α → Recipe β) (s : Emission) :
    p.run (r >>= f) s = p.run (f (p.run r s).1) (p.run r s).2 :=
  Recipe.run_bind p.emit r f s

/-! ## The equations without a depth -/

/-- A number without a block has no code. -/
theorem emit_of_missing {id : BlockId} (h : p.workspace.block? id = none) (s : Emission) :
    p.emit id s = (.statement "", s) := by
  unfold emit emitWithin
  rw [h]

/-- A block that is connected to itself yields a warning. -/
theorem emit_of_active {id : BlockId} {b : Block} (hb : p.workspace.block? id = some b)
    {s : Emission} (hid : id ∈ s.active) : p.emit id s = p.run (selfConnected b) s := by
  unfold emit emitWithin
  simp only [hb, List.contains_iff_mem, hid, if_true]
  rfl

/-- Any other block's recipe is carried out while the block is active. -/
theorem emit_of_not_active {id : BlockId} {b : Block} (hb : p.workspace.block? id = some b)
    {s : Emission} (hs : s.Nested p.workspace) (hid : id ∉ s.active) :
    p.emit id s =
      ((p.run (Emit.recipe p id b) (s.enter id)).1,
        (p.run (Emit.recipe p id b) (s.enter id)).2.leave id
          (p.run (Emit.recipe p id b) (s.enter id)).1) := by
  unfold emit emitWithin
  simp only [hb, List.contains_iff_mem, hid, if_false]
  rw [run_emitWithin (hs.enter hb hid) (Nat.zero_lt_succ _)]

/-- A block whose recipe asks for nothing yields its fragment, whatever else is being made. -/
theorem emit_of_pure {id : BlockId} {b : Block} (hb : p.workspace.block? id = some b)
    {s : Emission} (hid : id ∉ s.active) {fragment : Fragment}
    (hrecipe : Emit.recipe p id b = pure fragment) :
    p.emit id s = (fragment, (s.enter id).leave id fragment) := by
  unfold emit emitWithin
  simp only [hb, List.contains_iff_mem, hid, if_false, hrecipe]
  rfl

end Project

end BlockCompiler
