import BlockCompiler.Document.Outline
import BlockCompiler.Workspace.Order
import Mathlib.Logic.Relation

set_option autoImplicit false

/-! # Forests

A workspace whose links form trees: every link goes to a block with a greater number, no block is the
target of two links, and some blocks are known to be the target of none. The operations that build a
workspace keep this shape if a block is linked to while it is one of the known roots. In a forest no
stack runs into itself, and a block stands in one socket only. -/

namespace BlockCompiler

/-! ## Links -/

/-- The block that hangs on a block by a link. -/
def Block.target? (b : Block) : Outline.Link → Option BlockId
  | .value socket => b.values.get? socket
  | .statement socket => b.statements.get? socket
  | .next => b.next

namespace Workspace

/-- The block that hangs on the block of a number by a link. -/
def target? (w : Workspace) (id : BlockId) (link : Outline.Link) : Option BlockId :=
  (w.block? id).bind fun b => b.target? link

theorem target?_of_block? {w : Workspace} {id : BlockId} {b : Block} (h : w.block? id = some b)
    (link : Outline.Link) : w.target? id link = b.target? link := by
  rw [target?, h, Option.bind_some]

/-- A block stands in the stack that another one heads. -/
def Below (w : Workspace) : BlockId → BlockId → Prop :=
  Relation.ReflTransGen fun a b => w.target? a .next = some b

theorem block?_of_target? {w : Workspace} {id t : BlockId} {link : Outline.Link}
    (h : w.target? id link = some t) : ∃ b, w.block? id = some b ∧ b.target? link = some t :=
  Option.bind_eq_some_iff.1 h

/-- The links of a workspace form a forest in which `roots` are no targets. -/
structure IsForest (w : Workspace) (roots : List BlockId) : Prop where
  ascends : ∀ {id t : Nat} {link}, w.target? id link = some t → id < t ∧ t < w.size
  once : ∀ {id id' link link' t}, w.target? id link = some t → w.target? id' link' = some t →
    id = id' ∧ link = link'
  rooted : ∀ {id link t}, w.target? id link = some t → t ∉ roots
  nodup : roots.Nodup
  valid : ∀ t : Nat, t ∈ roots → t < w.size

namespace IsForest

variable {w w' : Workspace} {roots : List BlockId}

/-! ## Building -/

theorem empty : Workspace.empty.IsForest [] where
  ascends := nofun
  once := nofun
  rooted := nofun
  nodup := .nil
  valid := nofun

/-- Dropping links keeps a forest. -/
theorem of_target?_imp (h : w.IsForest roots) (hsize : w'.size = w.size)
    (himp : ∀ id link t, w'.target? id link = some t → w.target? id link = some t) :
    w'.IsForest roots where
  ascends ht := hsize ▸ h.ascends (himp _ _ _ ht)
  once ht ht' := h.once (himp _ _ _ ht) (himp _ _ _ ht')
  rooted ht := h.rooted (himp _ _ _ ht)
  nodup := h.nodup
  valid t ht := hsize ▸ h.valid t ht

theorem perm {roots' : List BlockId} (h : w.IsForest roots) (hperm : roots.Perm roots') :
    w.IsForest roots' where
  ascends := h.ascends
  once := h.once
  rooted ht hmem := h.rooted ht (hperm.mem_iff.2 hmem)
  nodup := hperm.nodup_iff.1 h.nodup
  valid t ht := h.valid t (hperm.mem_iff.2 ht)

end IsForest

/-! ## The operations -/

theorem size_add (w : Workspace) (b : Block) : (w.add b).size = w.size + 1 :=
  Array.size_push _

theorem block?_add (w : Workspace) (b : Block) (id : BlockId) :
    (w.add b).block? id = if id = w.size then some b else w.block? id :=
  Array.getElem?_push

theorem size_modify (w : Workspace) (id : BlockId) (change : Block → Block) :
    (w.modify id change).size = w.size :=
  Array.size_modify

theorem block?_modify (w : Workspace) (id : BlockId) (change : Block → Block) (j : BlockId) :
    (w.modify id change).block? j = if id = j then (w.block? j).map change else w.block? j :=
  Array.getElem?_modify

theorem size_exchange (w : Workspace) (id : BlockId) (b : Block) :
    (w.exchange id b).size = w.size :=
  Array.size_setIfInBounds

theorem block?_exchange (w : Workspace) {id : BlockId} (b : Block) (h : id < w.size)
    (j : BlockId) : (w.exchange id b).block? j = if id = j then some b else w.block? j := by
  show (w.blocks.setIfInBounds id b)[j]? = _
  rw [Array.getElem?_setIfInBounds]
  split
  · next hj => rw [if_pos (hj ▸ h)]
  · rfl

namespace IsForest

variable {w w' : Workspace} {roots : List BlockId}

/-- A new block without links is a root. -/
theorem add (h : w.IsForest roots) {b : Block} (hb : ∀ link, b.target? link = none) :
    (w.add b).IsForest (w.size :: roots) := by
  have htarget : ∀ {id link t}, (w.add b).target? id link = some t →
      w.target? id link = some t := by
    intro id link t ht
    unfold target? at *
    rw [block?_add] at ht
    split at ht
    · rw [Option.bind_some, hb] at ht
      cases ht
    · exact ht
  refine ⟨fun ht => ?_, fun ht ht' => h.once (htarget ht) (htarget ht'), fun ht => ?_, ?_, ?_⟩
  · rw [size_add]
    exact ⟨(h.ascends (htarget ht)).1, Nat.lt_succ_of_lt (h.ascends (htarget ht)).2⟩
  · refine List.not_mem_cons_of_ne_of_not_mem ?_ (h.rooted (htarget ht))
    exact Nat.ne_of_lt (h.ascends (htarget ht)).2
  · exact List.nodup_cons.2 ⟨fun hmem => Nat.lt_irrefl _ (h.valid _ hmem), h.nodup⟩
  · intro t ht
    rw [size_add]
    rcases List.mem_cons.1 ht with rfl | ht
    · exact Nat.lt_succ_self _
    · exact Nat.lt_succ_of_lt (h.valid t ht)

/-- A root that is linked to from a block with a smaller number is no root any longer. What hung
there before hangs nowhere. -/
theorem connect {parent child : BlockId} {link : Outline.Link} (h : w.IsForest (child :: roots))
    (hlt : parent < child) (hsize : w'.size = w.size)
    (htarget : ∀ id l, w'.target? id l =
      if id = parent ∧ l = link then some child else w.target? id l) :
    w'.IsForest roots := by
  have hchild : child < w.size := h.valid child List.mem_cons_self
  -- before it is linked to, the child is no target
  have hfree : ∀ {id l}, w.target? id l ≠ some child := fun ht =>
    h.rooted ht List.mem_cons_self
  obtain ⟨hnew, hnodup⟩ := List.nodup_cons.1 h.nodup
  refine ⟨fun {id t l} ht => ?_, fun {id id' l l' t} ht ht' => ?_, fun {id l t} ht => ?_, hnodup,
    fun t ht => hsize ▸ h.valid t (List.mem_cons_of_mem _ ht)⟩
  · rw [htarget] at ht
    rw [hsize]
    split at ht
    · next heq =>
      obtain rfl : child = t := Option.some_inj.1 ht
      exact ⟨heq.1 ▸ hlt, hchild⟩
    · exact h.ascends ht
  · rw [htarget] at ht ht'
    split at ht <;> split at ht'
    · next heq heq' => exact ⟨heq.1.trans heq'.1.symm, heq.2.trans heq'.2.symm⟩
    · exact absurd (ht'.trans ht.symm) hfree
    · exact absurd (ht.trans ht'.symm) hfree
    · exact h.once ht ht'
  · rw [htarget] at ht
    split at ht
    · obtain rfl : child = t := Option.some_inj.1 ht
      exact hnew
    · exact fun hmem => h.rooted ht (List.mem_cons_of_mem _ hmem)

/-! ## Stacks -/

/-- A block that hangs on no block as the next one heads every stack that it is a member of. -/
theorem eq_of_below {a b : BlockId} (hab : w.Below a b)
    (hb : ∀ c, w.target? c .next ≠ some b) : a = b := by
  rcases Relation.ReflTransGen.cases_tail hab with rfl | ⟨c, -, hc⟩
  · rfl
  · exact absurd hc (hb c)

variable (h : w.IsForest roots)

include h

theorem le_of_below {a b : Nat} (hab : w.Below a b) : a ≤ b := by
  induction hab with
  | refl => exact Nat.le_refl a
  | tail _ hbc ih => exact Nat.le_of_lt (Nat.lt_of_le_of_lt ih (h.ascends hbc).1)

/-- Of two stacks with a common member, one is the end of the other. -/
theorem below_or_below {a b c : BlockId} (hac : w.Below a c) (hbc : w.Below b c) :
    w.Below a b ∨ w.Below b a := by
  induction hac with
  | refl => exact .inr hbc
  | tail hac hnext ih =>
    -- the common member has one block above it, so both stacks go through that one
    rcases Relation.ReflTransGen.cases_tail hbc with rfl | ⟨d, hbd, hd⟩
    · exact .inl (hac.tail hnext)
    · obtain ⟨rfl, -⟩ := h.once hnext hd
      exact ih hbd

/-- A block is a member of one stack that does not continue another. -/
theorem head_unique {a b c : BlockId} (ha : ∀ d, w.target? d .next ≠ some a)
    (hb : ∀ d, w.target? d .next ≠ some b) (hac : w.Below a c) (hbc : w.Below b c) : a = b := by
  rcases h.below_or_below hac hbc with hab | hba
  · exact eq_of_below hab hb
  · exact (eq_of_below hba ha).symm

/-- What a stack in a forest looks like. -/
structure ChainSpec (w : Workspace) (head : BlockId) (chain : Chain) : Prop where
  ends : chain.repeated = none
  below : ∀ m ∈ chain.members, w.Below head m
  ascends : chain.members.Pairwise fun a b : Nat => a < b

/-- A stack ends before it comes back to one of its members. -/
theorem follow_spec {fuel head : Nat} {seen : List Nat} (hhead : head < w.size)
    (hfuel : w.size ≤ head + fuel) (hseen : ∀ id ∈ seen, id < head) :
    ChainSpec w head (w.follow fuel seen (some head)) := by
  -- numbers go up along a stack, so the fuel outlasts it and no member is met twice
  induction fuel generalizing seen head with
  | zero => exact absurd hhead (by omega)
  | succ fuel ih =>
    have hfresh : seen.contains head = false := by
      rw [Bool.eq_false_iff]
      intro hmem
      exact Nat.lt_irrefl _ (hseen head (List.contains_iff_mem.1 hmem))
    obtain ⟨b, hb⟩ : ∃ b, w.block? head = some b := ⟨_, Array.getElem?_eq_getElem hhead⟩
    unfold follow
    simp only [hfresh, hb, Bool.false_eq_true, if_false]
    cases hnext : b.next with
    | none =>
      rw [follow]
      refine ⟨rfl, fun m hm => ?_, List.pairwise_singleton _ _⟩
      rw [List.mem_singleton.1 hm]
      exact .refl
    | some below =>
      have htarget : w.target? head .next = some below := by
        rw [target?_of_block? hb, Block.target?, hnext]
      obtain ⟨hlt, hbelow⟩ := h.ascends htarget
      have hseen' : ∀ id ∈ head :: seen, id < below := by
        intro id hid
        rcases List.mem_cons.1 hid with rfl | hid
        · exact hlt
        · exact Nat.lt_trans (hseen id hid) hlt
      have hrest := ih hbelow (by omega) hseen'
      refine ⟨hrest.ends, fun m hm => ?_, List.pairwise_cons.2 ⟨fun m hm => ?_, hrest.ascends⟩⟩
      · rcases List.mem_cons.1 hm with rfl | hm
        · exact .refl
        · exact .head htarget (hrest.below m hm)
      · exact Nat.lt_of_lt_of_le hlt (h.le_of_below (hrest.below m hm))

theorem chainFrom_spec {head : Nat} (hhead : head < w.size) :
    ChainSpec w head (w.chainFrom head) :=
  h.follow_spec hhead (Nat.le_add_left _ _) nofun

end IsForest

end Workspace

end BlockCompiler
