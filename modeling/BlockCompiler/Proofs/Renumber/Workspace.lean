import BlockCompiler.Proofs.Context
import BlockCompiler.Proofs.Workspace.Sorted
import Mathlib.Data.Option.Basic
import Mathlib.Logic.Equiv.Defs

set_option autoImplicit false

/-! # Workspaces under other numbers

The numbers of blocks say in which order the blocks were added and nothing else. This file compares
two workspaces that hold the same blocks under other numbers. Where the sockets of each block and
the stacks on the canvas have keys that tell them apart, the links of a block, the stacks, the
program order and the members of a stack are the same in both. -/

namespace BlockCompiler

theorem contains_map {σ : BlockId → BlockId} (hσ : Function.Injective σ) (ids : List BlockId)
    (id : BlockId) : (ids.map σ).contains (σ id) = ids.contains id := by
  rw [Bool.eq_iff_iff, List.contains_iff_mem, List.contains_iff_mem,
    List.mem_map_of_injective hσ]

section Options

variable {α β : Type} {r : α → β → Prop} {x : Option α} {y : Option β}

theorem exists_of_rel_some (h : Option.Rel r x y) {a : α} (hx : x = some a) :
    ∃ b, y = some b ∧ r a b := by
  subst hx
  cases h with
  | some h => exact ⟨_, rfl, h⟩

theorem eq_none_of_rel (h : Option.Rel r x y) (hx : x = none) : y = none := by
  subst hx
  cases h
  rfl

end Options

/-! ## Sockets -/

namespace Ledger

variable {α : Type}

/-- The same sockets hold the same blocks under other numbers. -/
def Renumbers (σ : BlockId → BlockId) (l l' : Ledger BlockId) : Prop :=
  l'.entries.Perm (l.entries.map (Prod.map id σ))

/-- The order of sockets tells all sockets apart. -/
def HasDistinctSockets (l : Ledger BlockId) : Prop := (l.keys.map SocketKey.ofName).Nodup

variable {σ : BlockId → BlockId} {l l' : Ledger BlockId}

theorem Renumbers.get? (h : Renumbers σ l l') (hdistinct : l.HasDistinctSockets)
    (socket : String) : l'.get? socket = (l.get? socket).map σ := by
  have hnodup : l.keys.Nodup := .of_map _ hdistinct
  have hnodup' : l'.keys.Nodup := by
    have hkeys : (l.entries.map (Prod.map id σ)).map Prod.fst = l.keys := by
      rw [List.map_map]
      rfl
    rw [keys, (h.map Prod.fst).nodup_iff, hkeys]
    exact hnodup
  ext target
  rw [get?_eq_some_iff hnodup', h.mem_iff, List.mem_map, Option.map_eq_some_iff]
  constructor
  · rintro ⟨⟨name, id⟩, hmem, heq⟩
    obtain ⟨rfl, rfl⟩ := Prod.mk.inj heq
    exact ⟨id, (get?_eq_some_iff hnodup).2 hmem, rfl⟩
  · rintro ⟨id, hget, rfl⟩
    exact ⟨(socket, id), (get?_eq_some_iff hnodup).1 hget, rfl⟩

theorem Renumbers.inSocketOrder (h : Renumbers σ l l') (hdistinct : l.HasDistinctSockets) :
    BlockCompiler.inSocketOrder l' = (BlockCompiler.inSocketOrder l).map σ := by
  let key : String × BlockId → String ×ₗ Nat := fun entry => (SocketKey.ofName entry.1).sortKey
  have hcompare : ∀ entries : List (String × BlockId), ComparesBy key
      (fun a b => (SocketKey.ofName a.1).comesBefore (SocketKey.ofName b.1)) entries :=
    fun _ _ _ _ _ => SocketKey.comesBefore_eq _ _
  have hkeys : (l.entries.map key).Nodup := by
    have hmap : l.entries.map key = (l.keys.map SocketKey.ofName).map SocketKey.sortKey := by
      rw [keys, List.map_map, List.map_map]
      rfl
    rw [hmap]
    exact hdistinct.map SocketKey.sortKey_injective
  have hsort := sortStable_eq_map (f := Prod.map id σ) (hcompare _) hkeys (hcompare _)
    (fun _ _ => rfl) h
  rw [BlockCompiler.inSocketOrder, hsort, BlockCompiler.inSocketOrder, List.map_map, List.map_map]
  rfl

end Ledger

/-! ## Blocks -/

/-- The same block with its links under other numbers. -/
structure Block.Renumbers (σ : BlockId → BlockId) (b b' : Block) : Prop where
  id : b'.id = b.id
  type : b'.type = b.type
  fields : b'.fields = b.fields
  values : b.values.Renumbers σ b'.values
  statements : b.statements.Renumbers σ b'.statements
  next : b'.next = b.next.map σ
  mutation : b'.mutation = b.mutation
  disabled : b'.disabled = b.disabled
  x : b'.x = b.x
  y : b'.y = b.y

theorem Block.Renumbers.links {σ : BlockId → BlockId} {b b' : Block} (h : b.Renumbers σ b')
    (hvalues : b.values.HasDistinctSockets) (hstatements : b.statements.HasDistinctSockets) :
    b'.links = b.links.map σ := by
  rw [Block.links, Block.links, h.values.inSocketOrder hvalues,
    h.statements.inSocketOrder hstatements, h.next]
  cases b.next <;> simp

/-! ## Workspaces -/

namespace Workspace

/-- The same blocks, stacks and variables, where block `id` has number `σ id`. -/
structure Renumbers (σ : Equiv.Perm BlockId) (w w' : Workspace) : Prop where
  size : w'.size = w.size
  block? : ∀ id, Option.Rel (Block.Renumbers σ) (w.block? id) (w'.block? (σ id))
  top : w'.top.Perm (w.top.map σ)
  index : w'.index.Perm (w.index.map σ)
  variableNames : w'.variableNames = w.variableNames

/-- The canvas order tells all stacks apart, and the order of sockets all sockets of a block. -/
structure HasDistinctKeys (w : Workspace) : Prop where
  top : (w.top.map w.canvasKey).Nodup
  values : ∀ id b, w.block? id = some b → b.values.HasDistinctSockets
  statements : ∀ id b, w.block? id = some b → b.statements.HasDistinctSockets

namespace Renumbers

variable {σ : Equiv.Perm BlockId} {w w' : Workspace} (h : w.Renumbers σ w')

include h

theorem of_some {id : BlockId} {b : Block} (hb : w.block? id = some b) :
    ∃ b', w'.block? (σ id) = some b' ∧ b.Renumbers σ b' :=
  exists_of_rel_some (h.block? id) hb

theorem of_none {id : BlockId} (hb : w.block? id = none) : w'.block? (σ id) = none :=
  eq_none_of_rel (h.block? id) hb

theorem canvasKey (id : BlockId) : w'.canvasKey (σ id) = w.canvasKey id := by
  unfold Workspace.canvasKey
  cases hb : w.block? id with
  | none => rw [h.of_none hb]
  | some b =>
    obtain ⟨b', hb', hrel⟩ := h.of_some hb
    rw [hb', Option.map_some, Option.map_some, Block.canvasKey, Block.canvasKey, hrel.y, hrel.x,
      hrel.id]

theorem lt_size_iff (id : Nat) : σ id < w'.size ↔ id < w.size := by
  have hiff : ∀ (v : Workspace) (j : Nat), j < v.size ↔ v.block? j ≠ none := fun v j => by
    rw [ne_eq, Workspace.block?, Array.getElem?_eq_none_iff, not_le]
    rfl
  rw [hiff, hiff]
  cases hb : w.block? id with
  | none => simp [h.of_none hb]
  | some b =>
    obtain ⟨b', hb', -⟩ := h.of_some hb
    simp [hb']

/-- The numbers of blocks are mapped to the numbers of blocks. -/
theorem range_perm : (List.range w'.size).Perm ((List.range w.size).map σ) := by
  refine (List.perm_ext_iff_of_nodup List.nodup_range
    (List.nodup_range.map σ.injective)).2 fun j => ?_
  obtain ⟨id, rfl⟩ := σ.surjective j
  rw [List.mem_range, h.lt_size_iff, List.mem_map_of_injective σ.injective, List.mem_range]

variable (hdistinct : w.HasDistinctKeys)

include hdistinct

theorem links (id : BlockId) : w'.links (σ id) = (w.links id).map σ := by
  unfold Workspace.links
  cases hb : w.block? id with
  | none => rw [h.of_none hb]; rfl
  | some b =>
    obtain ⟨b', hb', hrel⟩ := h.of_some hb
    rw [hb']
    exact hrel.links (hdistinct.values id b hb) (hdistinct.statements id b hb)

/-- The stacks stand on the canvas in the same order. -/
theorem topBlocks (hvalid : w.IsValid) : w'.topBlocks = w.topBlocks.map σ := by
  have hvalid' : ∀ id ∈ w.top.map σ, id < w'.size := by
    intro id hid
    obtain ⟨j, hj, rfl⟩ := List.mem_map.1 hid
    exact (h.lt_size_iff j).2 (hvalid.top j hj)
  exact sortStable_eq_map (isAbove_comparesBy hvalid.top) hdistinct.top
    (isAbove_comparesBy hvalid') (fun id _ => h.canvasKey id) h.top

theorem visit (fuel : Nat) (agenda seen : List BlockId) :
    w'.visit fuel (agenda.map σ) (seen.map σ) = (w.visit fuel agenda seen).map σ := by
  induction fuel generalizing agenda seen with
  | zero => rfl
  | succ fuel ih =>
    cases agenda with
    | nil => rfl
    | cons id agenda =>
      rw [List.map_cons, Workspace.visit, Workspace.visit, contains_map σ.injective]
      split
      · exact ih agenda seen
      · rw [h.links hdistinct, ← List.map_append]
        exact ih (w.links id ++ agenda) (id :: seen)

theorem linkCount : w'.linkCount = w.linkCount := by
  have hlength : (fun id => (w'.links (σ id)).length) = fun id => (w.links id).length :=
    funext fun id => by rw [h.links hdistinct, List.length_map]
  unfold Workspace.linkCount
  rw [h.top.length_eq, List.length_map, (h.range_perm.flatMap_right w'.links).length_eq,
    List.length_flatMap, List.length_flatMap, List.map_map]
  exact congrArg (fun lengths => (List.map lengths (List.range w.size)).sum + w.top.length) hlength

/-- The program reads the same blocks in the same order. -/
theorem programOrder (hvalid : w.IsValid) : w'.programOrder = w.programOrder.map σ := by
  unfold Workspace.programOrder
  rw [h.topBlocks hdistinct hvalid, h.linkCount hdistinct, ← List.map_reverse.symm]
  exact congrArg List.reverse (h.visit hdistinct w.linkCount w.topBlocks [])

end Renumbers

end Workspace

end BlockCompiler
