import BlockCompiler.Proofs.Emission.Program
import BlockCompiler.Proofs.Workspace.Forest
import BlockCompiler.Proofs.Workspace.Order

set_option autoImplicit false

/-! # Who reads a block

In a forest every block stands in one socket at most, and then in no stack on the canvas. So a
block's code is asked for by the block that holds it or by the main function, never by both and never
by two blocks, and what a block reads comes after the block. -/

namespace BlockCompiler

/-! ## Sockets -/

/-- The link of a socket. -/
def Slot.link : Slot → Outline.Link
  | .value socket => .value socket
  | .stack socket => .statement socket

theorem Slot.link_injective : Function.Injective Slot.link := by
  rintro (socket | socket) (socket' | socket') h <;> cases h <;> rfl

namespace Workspace

/-- A block stands in a socket of another one: what hangs there, or a member of the stack below. -/
def Holds (w : Workspace) (id : BlockId) (slot : Slot) (x : BlockId) : Prop :=
  ∃ head, w.target? id slot.link = some head ∧ w.Below head x

namespace IsForest

variable {w : Workspace} {roots : List BlockId} (h : w.IsForest roots)

include h

/-- What hangs in a socket stands below no block. -/
theorem target?_next_ne {id head : BlockId} {slot : Slot} (ht : w.target? id slot.link = some head)
    (above : BlockId) : w.target? above .next ≠ some head := by
  intro hnext
  obtain ⟨-, hlink⟩ := h.once ht hnext
  cases slot <;> cases hlink

/-- A block stands in one socket only. -/
theorem holds_unique {id id' x : BlockId} {slot slot' : Slot} (hx : w.Holds id slot x)
    (hx' : w.Holds id' slot' x) : id = id' ∧ slot = slot' := by
  obtain ⟨head, ht, hbelow⟩ := hx
  obtain ⟨head', ht', hbelow'⟩ := hx'
  -- the stacks below the two sockets share a member, so they have one head
  obtain rfl : head = head' :=
    h.head_unique (h.target?_next_ne ht) (h.target?_next_ne ht') hbelow hbelow'
  obtain ⟨rfl, hlink⟩ := h.once ht ht'
  exact ⟨rfl, Slot.link_injective hlink⟩

/-- A member of a root's stack stands in no socket. -/
theorem not_holds_of_root {id x : BlockId} {root : BlockId} (hroot : root ∈ roots)
    (hbelow : w.Below root x) (slot : Slot) : ¬w.Holds id slot x := by
  rintro ⟨head, ht, hhead⟩
  -- what hangs in the socket would head the stack of the root
  obtain rfl : root = head :=
    h.head_unique (fun _ hd => h.rooted hd hroot) (h.target?_next_ne ht) hbelow hhead
  exact h.rooted ht hroot

theorem lt_of_holds {id x : Nat} {slot : Slot} (hx : w.Holds id slot x) : id < x := by
  obtain ⟨head, ht, hbelow⟩ := hx
  exact Nat.lt_of_lt_of_le (h.ascends ht).1 (h.le_of_below hbelow)

end IsForest

end Workspace

/-! ## Readers -/

namespace Project

open Workspace

variable {p : Project}

/-- The recipe of a block may ask for another one. -/
def Reads (p : Project) (id x : BlockId) : Prop :=
  ∃ b, p.workspace.block? id = some b ∧ x ∈ p.reads b

variable {roots : List BlockId} (h : p.workspace.IsForest roots)

include h

theorem holds_of_mem_filled {id x : BlockId} {b : Block} (hb : p.workspace.block? id = some b)
    {slot : Slot} (hx : x ∈ p.filled b slot) : p.workspace.Holds id slot x := by
  cases slot with
  | value socket =>
    obtain ⟨child, hplugged⟩ := mem_filled_value.1 hx
    obtain ⟨hvalue, -, -⟩ := plugged?_eq_some hplugged
    exact ⟨x, (target?_of_block? hb _).trans hvalue, .refl⟩
  | stack socket =>
    obtain ⟨head, hhead, hmember, -⟩ := mem_filled_stack.1 hx
    have ht : p.workspace.target? id (Slot.stack socket).link = some head :=
      (target?_of_block? hb _).trans hhead
    exact ⟨head, ht, (h.chainFrom_spec (h.ascends ht).2).below x hmember⟩

theorem holds_of_reads {id x : BlockId} (hx : p.Reads id x) :
    ∃ slot, p.workspace.Holds id slot x := by
  obtain ⟨b, hb, hx⟩ := hx
  unfold reads at hx
  split at hx
  · obtain ⟨slot, -, hx⟩ := List.mem_flatMap.1 hx
    exact ⟨slot, holds_of_mem_filled h hb hx⟩
  · cases hx

/-- A block comes after the one that reads it. -/
theorem lt_of_reads {id x : Nat} (hx : p.Reads id x) : id < x := by
  obtain ⟨slot, hholds⟩ := holds_of_reads h hx
  exact h.lt_of_holds hholds

/-- If all blocks that are being made come before a block, then they and the block come before all
that the block reads. -/
theorem before_of_reads {active : List BlockId} {id x : Nat} (hbefore : ∀ j : Nat, j ∈ active → j < id)
    (hx : p.Reads id x) : ∀ j : Nat, j ∈ id :: active → j < x := by
  have hlt := lt_of_reads h hx
  intro j hj
  rcases List.mem_cons.1 hj with rfl | hj
  · exact hlt
  · exact Nat.lt_trans (hbefore j hj) hlt

/-- One block only reads another. -/
theorem reader_unique {id id' x : BlockId} (hx : p.Reads id x) (hx' : p.Reads id' x) : id = id' := by
  obtain ⟨slot, hholds⟩ := holds_of_reads h hx
  obtain ⟨slot', hholds'⟩ := holds_of_reads h hx'
  exact (h.holds_unique hholds hholds').1

/-- No block reads a member of a stack on the canvas. -/
theorem not_reads_of_root {id x root : BlockId} (hroot : root ∈ roots)
    (hbelow : p.workspace.Below root x) : ¬p.Reads id x := by
  intro hx
  obtain ⟨slot, hholds⟩ := holds_of_reads h hx
  exact h.not_holds_of_root hroot hbelow slot hholds

end Project

end BlockCompiler
