import BlockCompiler.Proofs.Document.Socket
import BlockCompiler.Proofs.Workspace.Reach
import Mathlib.Data.List.Nodup
import Mathlib.Logic.Relation

set_option autoImplicit false

/-! # Program order in a forest

In a forest the walk that gives program order never meets a block again. So program order lists one
tree after the other, and each of them in preorder: a block, what its sockets hold, then the block
below with its own. Along a stack that is one member after the other, each with what it holds. -/

namespace BlockCompiler

/-! ## The links of a block -/

theorem Ledger.filterMap_keys {α : Type} {l : Ledger α} (h : l.keys.Nodup) :
    l.keys.filterMap l.get? = l.values := by
  rw [keys, values, List.filterMap_map, ← List.filterMap_eq_map]
  exact List.filterMap_congr fun entry hentry => (get?_eq_some_iff h).2 hentry

/-- The links by which something hangs on a block. -/
def Block.linkNames (b : Block) : List Outline.Link :=
  b.values.keys.map .value ++ b.statements.keys.map .statement ++
    b.next.toList.map fun _ => .next

namespace Block.NamesOnce

variable {b : Block} (h : b.NamesOnce)

include h

theorem linkNames_nodup : b.linkNames.Nodup := by
  refine List.nodup_append.2 ⟨List.nodup_append.2 ⟨?_, ?_, ?_⟩, ?_, ?_⟩
  · exact h.values.map fun _ _ heq => Outline.Link.value.inj heq
  · exact h.statements.map fun _ _ heq => Outline.Link.statement.inj heq
  · simp
  · cases b.next <;> simp
  · cases b.next with
    | none => simp
    | some below =>
      simp only [List.mem_append, List.mem_map]
      rintro _ (⟨_, _, rfl⟩ | ⟨_, _, rfl⟩) _ ⟨_, _, rfl⟩ heq <;> cases heq

/-- What a block links to hangs on it by links of different names. -/
theorem links_perm : b.links.Perm (b.linkNames.filterMap b.target?) := by
  have hnames : b.linkNames.filterMap b.target? =
      b.values.values ++ b.statements.values ++ b.next.toList := by
    rw [linkNames, List.filterMap_append, List.filterMap_append, List.filterMap_map,
      List.filterMap_map, List.filterMap_map, ← Ledger.filterMap_keys h.values,
      ← Ledger.filterMap_keys h.statements]
    cases hnext : b.next <;> simp [target?, hnext, Function.comp_def]
  rw [hnames]
  exact ((Workspace.inSocketOrder_perm _).append (Workspace.inSocketOrder_perm _)).append_right _

end Block.NamesOnce

namespace Workspace

variable {w : Workspace} {roots : List BlockId}

/-! ## Trees -/

/-- Links lead from one block to another. -/
def Reaches (w : Workspace) : BlockId → BlockId → Prop := Relation.ReflTransGen w.LinksTo

/-- A block with everything that links lead to, each block before what hangs on it. Only links to
blocks with greater numbers are followed; in a forest there are no others. -/
def preorder (w : Workspace) (id : Nat) : List BlockId :=
  id :: (w.links id).flatMap fun child : Nat =>
    if id < child ∧ child < w.size then w.preorder child else []
termination_by w.size - id

theorem mem_preorder_self (id : BlockId) : id ∈ w.preorder id := by
  rw [preorder]
  exact List.mem_cons_self

/-- The blocks in the sockets of the block of a number. -/
def held (w : Workspace) (id : BlockId) : List BlockId :=
  match w.block? id with
  | some b => b.held
  | none => []

/-- A block with everything in its sockets. -/
def subtree (w : Workspace) (id : BlockId) : List BlockId := id :: (w.held id).flatMap w.preorder

theorem target?_of_linksTo (hnames : w.All Block.NamesOnce) {id child : BlockId} (hlink : w.LinksTo id child) :
    ∃ link, w.target? id link = some child := by
  obtain ⟨b, hb, hchild⟩ := hlink
  have hmem : child ∈ b.links := by
    have hlinks := mem_links_iff.2 ⟨b, hb, hchild⟩
    rwa [links, hb] at hlinks
  obtain ⟨link, -, htarget⟩ := List.mem_filterMap.1 ((hnames id b hb).links_perm.mem_iff.1 hmem)
  exact ⟨link, (target?_of_block? hb link).trans htarget⟩

namespace IsForest

variable (h : w.IsForest roots) (hnames : w.All Block.NamesOnce)

include h hnames

theorem lt_of_linksTo {id child : Nat} (hlink : w.LinksTo id child) :
    id < child ∧ child < w.size := by
  obtain ⟨link, htarget⟩ := target?_of_linksTo hnames hlink
  exact h.ascends htarget

/-- A block hangs on one other block at most. -/
theorem linksTo_leftUnique : Relator.LeftUnique w.LinksTo := by
  intro id child id' hlink hlink'
  obtain ⟨link, htarget⟩ := target?_of_linksTo hnames hlink
  obtain ⟨link', htarget'⟩ := target?_of_linksTo hnames hlink'
  exact (h.once htarget htarget').1

theorem not_linksTo_root {id root : BlockId} (hroot : root ∈ roots) : ¬w.LinksTo id root := by
  intro hlink
  obtain ⟨link, htarget⟩ := target?_of_linksTo hnames hlink
  exact h.rooted htarget hroot

theorem links_nodup (id : BlockId) : (w.links id).Nodup := by
  unfold links
  cases hb : w.block? id with
  | none => exact .nil
  | some b =>
    refine (hnames id b hb).links_perm.nodup_iff.2 ((hnames id b hb).linkNames_nodup.filterMap ?_)
    intro link link' child htarget htarget'
    rw [Option.mem_def, ← target?_of_block? hb] at htarget htarget'
    exact (h.once htarget htarget').2

theorem le_of_reaches {a x : Nat} (hx : w.Reaches a x) : a ≤ x := by
  induction hx with
  | refl => exact Nat.le_refl a
  | tail _ hlink ih => exact Nat.le_trans ih (Nat.le_of_lt (h.lt_of_linksTo hnames hlink).1)

/-- Of two blocks that lead to a common one, one leads to the other. -/
theorem reaches_or_reaches {a b x : BlockId} (ha : w.Reaches a x) (hb : w.Reaches b x) :
    w.Reaches a b ∨ w.Reaches b a := by
  have hunique : Relator.RightUnique (Function.swap w.LinksTo) := fun _ _ _ hlink hlink' =>
    h.linksTo_leftUnique hnames hlink hlink'
  have htotal := Relation.ReflTransGen.total_of_right_unique hunique
    (Relation.reflTransGen_swap.2 ha) (Relation.reflTransGen_swap.2 hb)
  exact htotal.symm.imp Relation.reflTransGen_swap.1 Relation.reflTransGen_swap.1

/-- What hangs on a block leads to nothing else that hangs there. -/
theorem eq_of_linksTo_of_reaches {id a b : BlockId} (ha : w.LinksTo id a) (hb : w.LinksTo id b)
    (hab : w.Reaches a b) : a = b := by
  rcases Relation.ReflTransGen.cases_tail hab with rfl | ⟨c, hac, hcb⟩
  · rfl
  · obtain rfl := h.linksTo_leftUnique hnames hb hcb
    exact absurd (h.lt_of_linksTo hnames ha).1 (Nat.not_lt_of_le (h.le_of_reaches hnames hac))

/-- Nothing else leads to a root. -/
theorem eq_of_reaches_root {a root : BlockId} (hroot : root ∈ roots) (ha : w.Reaches a root) :
    a = root := by
  rcases Relation.ReflTransGen.cases_tail ha with rfl | ⟨c, -, hc⟩
  · rfl
  · exact absurd hc (h.not_linksTo_root hnames hroot)

/-! ## Preorder -/

theorem preorder_eq (id : BlockId) : w.preorder id = id :: (w.links id).flatMap w.preorder := by
  rw [preorder]
  refine congrArg (id :: ·) (List.flatMap_congr fun child hchild => if_pos ?_)
  exact h.lt_of_linksTo hnames (mem_links_iff.1 hchild)

theorem reaches_of_mem_preorder {id x : BlockId} (hx : x ∈ w.preorder id) : w.Reaches id x := by
  induction id using preorder.induct w generalizing x with
  | case1 id ih =>
    rw [h.preorder_eq hnames] at hx
    rcases List.mem_cons.1 hx with rfl | hx
    · exact .refl
    · obtain ⟨child, hchild, hx⟩ := List.mem_flatMap.1 hx
      have hlink := mem_links_iff.1 hchild
      exact .head hlink (ih child (h.lt_of_linksTo hnames hlink) hx)

/-- The trees of blocks none of which leads to another one have no block in common. -/
theorem flatMap_preorder_nodup {ids : List BlockId} (hids : ids.Nodup)
    (hapart : ∀ a ∈ ids, ∀ b ∈ ids, w.Reaches a b → a = b)
    (hpreorder : ∀ a ∈ ids, (w.preorder a).Nodup) : (ids.flatMap w.preorder).Nodup := by
  refine List.nodup_flatMap.2 ⟨hpreorder, hids.imp_of_mem fun {a b} ha hb hne x hxa hxb => hne ?_⟩
  rcases h.reaches_or_reaches hnames (h.reaches_of_mem_preorder hnames hxa)
    (h.reaches_of_mem_preorder hnames hxb) with hab | hba
  · exact hapart a ha b hb hab
  · exact (hapart b hb a ha hba).symm

theorem preorder_nodup (id : BlockId) : (w.preorder id).Nodup := by
  induction id using preorder.induct w with
  | case1 id ih =>
    have hlink : ∀ child ∈ w.links id, w.LinksTo id child := fun _ => mem_links_iff.1
    rw [h.preorder_eq hnames]
    refine List.nodup_cons.2 ⟨fun hmem => ?_, ?_⟩
    · obtain ⟨child, hchild, hmem⟩ := List.mem_flatMap.1 hmem
      have hlt := (h.lt_of_linksTo hnames (hlink child hchild)).1
      exact Nat.not_lt_of_le (h.le_of_reaches hnames (h.reaches_of_mem_preorder hnames hmem)) hlt
    · exact h.flatMap_preorder_nodup hnames (h.links_nodup hnames id)
        (fun a ha b hb => h.eq_of_linksTo_of_reaches hnames (hlink a ha) (hlink b hb))
        fun child hchild => ih child (h.lt_of_linksTo hnames (hlink child hchild))

/-- A walk from blocks whose trees were not entered yet visits one tree after the other. -/
theorem visited_eq {agenda seen visited : List BlockId} (hvisits : w.Visits agenda seen visited)
    (hfresh : (agenda.flatMap w.preorder ++ seen).Nodup) :
    visited = (agenda.flatMap w.preorder).reverse ++ seen := by
  induction hvisits with
  | ends seen => rfl
  | @skip id agenda seen visited hid _ _ =>
    have hmem : id ∈ (id :: agenda).flatMap w.preorder :=
      List.mem_flatMap.2 ⟨id, List.mem_cons_self, mem_preorder_self id⟩
    exact absurd hid fun hseen => (List.nodup_append.1 hfresh).2.2 id hmem id hseen rfl
  | @visit id agenda seen visited _ _ ih =>
    have htrees : (id :: agenda).flatMap w.preorder =
        id :: (w.links id ++ agenda).flatMap w.preorder := by
      rw [List.flatMap_cons, h.preorder_eq hnames, List.flatMap_append, List.cons_append]
    rw [htrees] at hfresh ⊢
    rw [ih (List.perm_middle.nodup_iff.2 hfresh), List.reverse_cons, List.append_assoc]
    rfl

/-- In a forest, program order lists the trees of all stacks in preorder. -/
theorem programOrder_eq (hroots : roots = w.top) :
    w.programOrder = w.topBlocks.flatMap w.preorder := by
  subst hroots
  have htop : ∀ id ∈ w.topBlocks, id ∈ w.top := fun id => w.topBlocks_perm.mem_iff.1
  have hfresh := h.flatMap_preorder_nodup hnames (w.topBlocks_perm.nodup_iff.2 h.nodup)
    (fun a _ b hb => h.eq_of_reaches_root hnames (htop b hb)) fun a _ => h.preorder_nodup hnames a
  have hvisited := h.visited_eq hnames w.programOrder_visits (by rwa [List.append_nil])
  rw [List.append_nil] at hvisited
  exact List.reverse_injective hvisited

/-! ## Along a stack -/

theorem preorder_eq_subtree_append {id : BlockId} {b : Block} (hb : w.block? id = some b) :
    w.preorder id = w.subtree id ++ b.next.toList.flatMap w.preorder := by
  have hlinks : w.links id = w.held id ++ b.next.toList := by
    rw [links, held, hb]
    rfl
  rw [h.preorder_eq hnames, hlinks, List.flatMap_append]
  rfl

/-- The tree of a stack's head is that of all members with what they hold. -/
theorem preorder_eq_of_isStack {head : BlockId} {ids : List BlockId} (hstack : w.IsStack head ids) :
    w.preorder head = ids.flatMap w.subtree := by
  induction hstack with
  | last hb hnext =>
    rw [h.preorder_eq_subtree_append hnames hb, hnext, List.flatMap_singleton]
    exact List.append_nil _
  | above hb hnext _ ih =>
    rw [h.preorder_eq_subtree_append hnames hb, hnext, List.flatMap_cons, ← ih, Option.toList_some,
      List.flatMap_singleton]

end IsForest

end Workspace

end BlockCompiler
