import BlockCompiler.Proofs.Workspace.Forest
import Mathlib.Data.List.Perm.Basic

set_option autoImplicit false

/-! # Orders on a workspace

Sorting keeps every element, so the canvas order has all stacks and the socket order all links. The
walk that gives the program order takes one number off its agenda in each step and puts the links of
a block there only once; so its fuel lasts until the agenda is empty, and then the blocks visited are
closed under links. -/

namespace BlockCompiler

/-! ## Sorting -/

section Sorting

variable {α : Type} (before : α → α → Bool)

theorem insertSorted_perm (a : α) (as : List α) : (insertSorted before a as).Perm (a :: as) := by
  induction as with
  | nil => exact List.Perm.refl _
  | cons b bs ih =>
    unfold insertSorted
    split
    · exact (ih.cons b).trans (List.Perm.swap a b bs)
    · exact List.Perm.refl _

theorem sortStable_perm (as : List α) : (sortStable before as).Perm as := by
  induction as with
  | nil => exact List.Perm.refl _
  | cons a as ih => exact (insertSorted_perm before a _).trans (ih.cons a)

end Sorting

namespace Workspace

variable {w : Workspace}

/-- The canvas order has every stack once. -/
theorem topBlocks_perm (w : Workspace) : w.topBlocks.Perm w.top := sortStable_perm _ _

/-- Every link of a block is one of its links in the order of sockets. -/
theorem mem_inSocketOrder {sockets : Ledger BlockId} {socket : String} {id : BlockId}
    (h : sockets.get? socket = some id) : id ∈ inSocketOrder sockets := by
  obtain ⟨before, after, hentries, -⟩ := List.lookup_eq_some_iff.1 h
  refine List.mem_map.2 ⟨(socket, id), (sortStable_perm _ _).mem_iff.2 ?_, rfl⟩
  rw [hentries]
  exact List.mem_append_right _ List.mem_cons_self

theorem mem_links_of_target? {id t : BlockId} {link : Outline.Link}
    (h : w.target? id link = some t) : t ∈ w.links id := by
  obtain ⟨b, hb, ht⟩ := block?_of_target? h
  rw [links, hb]
  cases link with
  | value socket => exact List.mem_append_left _ (List.mem_append_left _ (mem_inSocketOrder ht))
  | statement socket =>
    exact List.mem_append_left _ (List.mem_append_right _ (mem_inSocketOrder ht))
  | next => exact List.mem_append_right _ (Option.mem_toList.2 ht)

/-- Every link and every head of a stack is the number of a block. -/
structure IsValid (w : Workspace) : Prop where
  links : ∀ id : Nat, ∀ target ∈ w.links id, target < w.size
  top : ∀ id ∈ w.top, id < w.size

/-! ## Walks -/

/-- How often numbers are still to be put on the agenda of a walk that has visited `seen`. -/
def pending (w : Workspace) (seen : List BlockId) : Nat :=
  (((List.range w.size).filter fun id => !seen.contains id).flatMap w.links).length

theorem length_unseen (links : BlockId → List BlockId) {id : BlockId} {seen ids : List BlockId}
    (hid : seen.contains id = false) (hids : ids.Nodup) :
    ((ids.filter fun j => !(id :: seen).contains j).flatMap links).length +
        (if id ∈ ids then (links id).length else 0) =
      ((ids.filter fun j => !seen.contains j).flatMap links).length := by
  induction ids with
  | nil => rfl
  | cons j ids ih =>
    obtain ⟨hj, hids⟩ := List.nodup_cons.1 hids
    have ih := ih hids
    by_cases hji : j = id
    · -- The visited block itself is counted here and nowhere else.
      subst hji
      rw [if_neg hj] at ih
      rw [if_pos List.mem_cons_self, List.filter_cons_of_neg (by simp),
        List.filter_cons_of_pos (by simpa using hid), List.flatMap_cons, List.length_append]
      omega
    · have hmem : id ∈ j :: ids ↔ id ∈ ids := by simp [Ne.symm hji]
      have hcontains : (id :: seen).contains j = seen.contains j := by simp [hji]
      simp only [hmem, List.filter_cons, hcontains]
      split
      · simp only [List.flatMap_cons, List.length_append]
        omega
      · exact ih

/-- A visit takes the links of the block off the ones that are pending. -/
theorem pending_cons {id : BlockId} {seen : List BlockId} (h : seen.contains id = false) :
    w.pending (id :: seen) + (w.links id).length = w.pending seen := by
  have hlength := length_unseen w.links h (@List.nodup_range w.size)
  have hlinks : (if id ∈ List.range w.size then (w.links id).length else 0) =
      (w.links id).length := by
    split
    · rfl
    · next hid =>
      have hmissing : w.block? id = none :=
        Array.getElem?_eq_none (Nat.le_of_not_lt fun hlt => hid (List.mem_range.2 hlt))
      rw [links, hmissing]
      rfl
  rw [hlinks] at hlength
  exact hlength

/-- Every link from a visited block leads to a visited one or is on the agenda. -/
def Covers (w : Workspace) (agenda seen : List BlockId) : Prop :=
  ∀ id ∈ seen, ∀ child ∈ w.links id, child ∈ seen ∨ child ∈ agenda

/-- A walk with enough fuel visits everything on its agenda and follows all links. -/
theorem visit_spec {fuel : Nat} {agenda seen : List BlockId}
    (hfuel : agenda.length + w.pending seen ≤ fuel) (hcovers : w.Covers agenda seen) :
    (∀ id ∈ agenda, id ∈ w.visit fuel agenda seen) ∧
      (∀ id ∈ seen, id ∈ w.visit fuel agenda seen) ∧ w.Covers [] (w.visit fuel agenda seen) := by
  induction fuel generalizing agenda seen with
  | zero =>
    obtain rfl : agenda = [] := List.length_eq_zero_iff.1 (by omega)
    exact ⟨nofun, fun id hid => hid, hcovers⟩
  | succ fuel ih =>
    cases agenda with
    | nil => exact ⟨nofun, fun id hid => hid, hcovers⟩
    | cons id agenda =>
      rw [List.length_cons] at hfuel
      unfold visit
      split
      · next hseen =>
        have hid := List.contains_iff_mem.1 hseen
        have hcovers' : w.Covers agenda seen := by
          intro a ha child hchild
          rcases hcovers a ha child hchild with h | h
          · exact .inl h
          · rcases List.mem_cons.1 h with rfl | h
            · exact .inl hid
            · exact .inr h
        obtain ⟨hagenda, hkeep, hclosed⟩ := ih (by omega) hcovers'
        refine ⟨fun a ha => ?_, hkeep, hclosed⟩
        rcases List.mem_cons.1 ha with rfl | ha
        · exact hkeep a hid
        · exact hagenda a ha
      · next hseen =>
        have hpending := pending_cons (w := w) (Bool.eq_false_iff.2 hseen)
        have hcovers' : w.Covers (w.links id ++ agenda) (id :: seen) := by
          intro a ha child hchild
          rcases List.mem_cons.1 ha with rfl | ha
          · exact .inr (List.mem_append_left _ hchild)
          · rcases hcovers a ha child hchild with h | h
            · exact .inl (List.mem_cons_of_mem _ h)
            · rcases List.mem_cons.1 h with rfl | h
              · exact .inl List.mem_cons_self
              · exact .inr (List.mem_append_right _ h)
        obtain ⟨hagenda, hkeep, hclosed⟩ := ih (by rw [List.length_append]; omega) hcovers'
        refine ⟨fun a ha => ?_, fun a ha => hkeep a (List.mem_cons_of_mem _ ha), hclosed⟩
        rcases List.mem_cons.1 ha with rfl | ha
        · exact hkeep a List.mem_cons_self
        · exact hagenda a (List.mem_append_right _ ha)

/-! ## Program order -/

/-- A walk from all stacks starts with enough fuel. -/
theorem linkCount_eq (w : Workspace) : w.linkCount = w.topBlocks.length + w.pending [] := by
  have hunseen : ((List.range w.size).filter fun id => !([] : List BlockId).contains id) =
      List.range w.size := List.filter_eq_self.2 fun _ _ => rfl
  unfold linkCount pending
  rw [hunseen, w.topBlocks_perm.length_eq]
  exact Nat.add_comm _ _

/-- The program order starts at all stacks and follows all links. -/
theorem programOrder_spec (w : Workspace) :
    (∀ id ∈ w.top, id ∈ w.programOrder) ∧
      ∀ id ∈ w.programOrder, ∀ child ∈ w.links id, child ∈ w.programOrder := by
  obtain ⟨hagenda, -, hclosed⟩ := visit_spec (Nat.le_of_eq w.linkCount_eq.symm) nofun
  unfold programOrder
  simp only [List.mem_reverse]
  refine ⟨fun id hid => hagenda id (w.topBlocks_perm.mem_iff.2 hid), fun id hid child hchild => ?_⟩
  exact (hclosed id hid child hchild).resolve_right List.not_mem_nil

theorem mem_programOrder_of_target? {id t : BlockId} {link : Outline.Link}
    (hid : id ∈ w.programOrder) (ht : w.target? id link = some t) : t ∈ w.programOrder :=
  w.programOrder_spec.2 id hid t (mem_links_of_target? ht)

theorem mem_programOrder_of_below {a x : BlockId} (ha : a ∈ w.programOrder) (hx : w.Below a x) :
    x ∈ w.programOrder := by
  induction hx with
  | refl => exact ha
  | tail _ hnext ih => exact mem_programOrder_of_target? ih hnext

end Workspace

end BlockCompiler
