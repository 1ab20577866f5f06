import BlockCompiler.Proofs.Workspace.Order
import Mathlib.Data.List.Perm.Subperm

set_option autoImplicit false

/-! # Walks over a workspace

`Workspace.follow` and `Workspace.visit` count down to be structural. This file describes both walks
without a count, for any graph of links: a walk along a stack stops at a block that it has met
before, and the walk that gives the program order skips such blocks. On valid links the counts that
the definitions start with outlast the walks, so they cut nothing off. -/

namespace BlockCompiler.Workspace

variable {w : Workspace}

theorem IsValid.exists_block? {id : BlockId} (h : id < w.size) : ∃ b, w.block? id = some b :=
  ⟨_, Array.getElem?_eq_getElem h⟩

theorem IsValid.next_lt {id next : BlockId} {b : Block} (h : w.IsValid) (hb : w.block? id = some b)
    (hnext : b.next = some next) : next < w.size := by
  have htarget : w.target? id .next = some next := by
    rw [target?_of_block? hb, Block.target?, hnext]
  exact h.links id next (mem_links_of_target? htarget)

/-! ## Along a stack -/

/-- Following a stack from `current`, where `seen` holds the members so far, takes a number of steps
and finds the given rest of the stack. Every look at a block is a step. -/
inductive Walks (w : Workspace) : Nat → List BlockId → Option BlockId → Chain → Prop
  | ends (seen : List BlockId) : Walks w 0 seen none ⟨[], none⟩
  | repeats {seen : List BlockId} {id : BlockId} :
    id ∈ seen → Walks w 1 seen (some id) ⟨[], some id⟩
  | step {steps : Nat} {seen : List BlockId} {id : BlockId} {b : Block} {rest : Chain} :
    id ∉ seen → w.block? id = some b → Walks w steps (id :: seen) b.next rest →
    Walks w (steps + 1) seen (some id) { rest with members := id :: rest.members }

/-- No more blocks can be told apart than there are. -/
theorem length_le_size {seen : List BlockId} (hnodup : seen.Nodup)
    (hseen : ∀ id ∈ seen, id < w.size) : seen.length ≤ w.size := by
  have hsub : seen ⊆ List.range w.size := fun j hj => List.mem_range.2 (hseen j hj)
  simpa using (hnodup.subperm hsub).length_le

theorem follow_walks
    (hvalid : ∀ {id b next}, w.block? id = some b → b.next = some next → next < w.size)
    {fuel : Nat} {seen : List BlockId} {current : Option BlockId}
    (hnodup : seen.Nodup) (hseen : ∀ id ∈ seen, id < w.size)
    (hfuel : w.size ≤ fuel + seen.length) (hcurrent : ∀ id ∈ current, id < w.size) :
    ∃ steps, steps + seen.length ≤ w.size + 1 ∧
      w.Walks steps seen current (w.follow fuel seen current) := by
  have hlength := length_le_size hnodup hseen
  induction fuel generalizing seen current with
  | zero =>
    cases current with
    | none => exact ⟨0, by omega, .ends seen⟩
    | some id =>
      -- a new member would be one more than there are blocks, so this one is met again
      have hid : id ∈ seen := by
        by_contra hnew
        have hmore := length_le_size (List.nodup_cons.2 ⟨hnew, hnodup⟩)
          (List.forall_mem_cons.2 ⟨hcurrent id rfl, hseen⟩)
        rw [List.length_cons] at hmore
        omega
      exact ⟨1, by omega, .repeats hid⟩
  | succ fuel ih =>
    cases current with
    | none => exact ⟨0, by omega, .ends seen⟩
    | some id =>
      unfold follow
      split
      · next hid => exact ⟨1, by omega, .repeats (List.contains_iff_mem.1 hid)⟩
      · next hid =>
        have hid : id ∉ seen := fun hmem => hid (List.contains_iff_mem.2 hmem)
        have hlt : id < w.size := hcurrent id rfl
        obtain ⟨b, hb⟩ := IsValid.exists_block? hlt
        have hnodup' : (id :: seen).Nodup := List.nodup_cons.2 ⟨hid, hnodup⟩
        have hseen' : ∀ j ∈ id :: seen, j < w.size := List.forall_mem_cons.2 ⟨hlt, hseen⟩
        obtain ⟨steps, hsteps, hwalks⟩ := ih hnodup' hseen' (by rw [List.length_cons]; omega)
          (fun next hnext => hvalid hb hnext) (length_le_size hnodup' hseen')
        rw [List.length_cons] at hsteps
        simp only [hb]
        exact ⟨steps + 1, by omega, .step hid hb hwalks⟩

/-- The members of a stack are found in at most one step more than there are blocks. -/
theorem chainFrom_walks (h : w.IsValid) {head : BlockId} (hhead : head < w.size) :
    ∃ steps, steps ≤ w.size + 1 ∧ w.Walks steps [] (some head) (w.chainFrom head) :=
  follow_walks h.next_lt .nil nofun (Nat.le_refl _) fun _ hid => Option.some_inj.1 hid ▸ hhead

/-- The blocks of a stack from its head on: below each stands the one that its next link names. -/
inductive IsStack (w : Workspace) : BlockId → List BlockId → Prop
  | last {id : BlockId} {b : Block} : w.block? id = some b → b.next = none → IsStack w id [id]
  | above {id below : BlockId} {b : Block} {ids : List BlockId} :
    w.block? id = some b → b.next = some below → IsStack w below ids → IsStack w id (id :: ids)

theorem IsStack.unique {head : BlockId} {ids ids' : List BlockId} (h : w.IsStack head ids)
    (h' : w.IsStack head ids') : ids = ids' := by
  induction h generalizing ids' with
  | last hb hnext =>
    cases h' with
    | last => rfl
    | above hb' hnext' _ =>
      cases hb.symm.trans hb'
      cases hnext.symm.trans hnext'
  | above hb hnext _ ih =>
    cases h' with
    | last hb' hnext' =>
      cases hb.symm.trans hb'
      cases hnext.symm.trans hnext'
    | above hb' hnext' hrest =>
      cases hb.symm.trans hb'
      cases hnext.symm.trans hnext'
      rw [ih hrest]

/-- A walk that ends at no member that it has met before finds the whole stack. -/
theorem Walks.isStack {steps : Nat} {seen : List BlockId} {head : BlockId} {chain : Chain}
    (h : w.Walks steps seen (some head) chain) (hends : chain.repeated = none) :
    w.IsStack head chain.members := by
  obtain ⟨current, hcurrent⟩ : ∃ current, current = some head := ⟨_, rfl⟩
  rw [← hcurrent] at h
  induction h generalizing head with
  | ends seen => cases hcurrent
  | repeats _ => cases hends
  | @step steps seen id b rest _ hb hrest ih =>
    cases hcurrent
    cases hnext : b.next with
    | none =>
      rw [hnext] at hrest
      cases hrest
      exact .last hb hnext
    | some below => exact .above hb hnext (ih hends hnext)

/-- In a forest the members of a stack are all of its blocks. -/
theorem IsForest.chainFrom_isStack {roots : List BlockId} (h : w.IsForest roots) {head : Nat}
    (hhead : head < w.size) : w.IsStack head (w.chainFrom head).members := by
  have hvalid : ∀ {id b next}, w.block? id = some b → b.next = some next → next < w.size := by
    intro id b next hb hnext
    have htarget : w.target? id .next = some next := by
      rw [target?_of_block? hb, Block.target?, hnext]
    exact (h.ascends htarget).2
  have hcurrent : ∀ id ∈ some head, id < w.size := fun _ hid => Option.some_inj.1 hid ▸ hhead
  obtain ⟨steps, -, hwalks⟩ := follow_walks hvalid .nil (fun _ hid => absurd hid List.not_mem_nil)
    (Nat.le_refl _) hcurrent
  exact hwalks.isStack (h.chainFrom_spec hhead).ends

/-! ## In program order -/

/-- Visiting an agenda depth first, where `seen` holds the blocks visited so far, ends with the given
blocks visited. -/
inductive Visits (w : Workspace) : List BlockId → List BlockId → List BlockId → Prop
  | ends (seen : List BlockId) : Visits w [] seen seen
  | skip {id : BlockId} {agenda seen visited : List BlockId} :
    id ∈ seen → Visits w agenda seen visited → Visits w (id :: agenda) seen visited
  | visit {id : BlockId} {agenda seen visited : List BlockId} :
    id ∉ seen → Visits w (w.links id ++ agenda) (id :: seen) visited →
    Visits w (id :: agenda) seen visited

theorem visit_visits {fuel : Nat} {agenda seen : List BlockId}
    (hfuel : agenda.length + w.pending seen ≤ fuel) :
    w.Visits agenda seen (w.visit fuel agenda seen) := by
  induction fuel generalizing agenda seen with
  | zero =>
    obtain rfl : agenda = [] := List.eq_nil_of_length_eq_zero (by omega)
    exact .ends seen
  | succ fuel ih =>
    cases agenda with
    | nil => exact .ends seen
    | cons id agenda =>
      rw [List.length_cons] at hfuel
      unfold visit
      split
      · next hid => exact .skip (List.contains_iff_mem.1 hid) (ih (by omega))
      · next hid =>
        have hpending := pending_cons (w := w) (Bool.eq_false_iff.2 hid)
        refine .visit (fun hmem => hid (List.contains_iff_mem.2 hmem)) (ih ?_)
        rw [List.length_append]
        omega

/-- The program order is what a walk from all stacks visits. -/
theorem programOrder_visits (w : Workspace) : w.Visits w.topBlocks [] w.programOrder.reverse := by
  rw [programOrder, List.reverse_reverse]
  exact visit_visits (Nat.le_of_eq w.linkCount_eq.symm)

end BlockCompiler.Workspace
