import BlockCompiler.Proofs.Workspace.Walk

set_option autoImplicit false

/-! # What program order reaches

Program order is found by a walk from every stack on the canvas: a block comes before what its
sockets hold, and that before the block below. A block that was met before is not entered again, even
in the middle of a stack, where the walk along this stack stops. Nothing is lost by that, whatever
cycles the links form and however many of them lead to one block: the walk enters every block to which
links lead from a stack, once, and no other. -/

namespace BlockCompiler

/-- The blocks in the sockets of a block, in the order in which a program reads them. -/
def Block.held (b : Block) : List BlockId := inSocketOrder b.values ++ inSocketOrder b.statements

namespace Workspace

variable {w : Workspace}

/-! ## Links -/

/-- A block hangs on another one: in one of its value sockets, in one of its statement sockets, or
below it. -/
def LinksTo (w : Workspace) (id child : BlockId) : Prop :=
  ∃ b, w.block? id = some b ∧
    (child ∈ b.values.values ∨ child ∈ b.statements.values ∨ b.next = some child)

/-- Links lead from a stack on the canvas to a block. -/
def IsReached (w : Workspace) (id : BlockId) : Prop :=
  ∃ root ∈ w.top, Relation.ReflTransGen w.LinksTo root id

theorem inSocketOrder_perm (sockets : Ledger BlockId) :
    (inSocketOrder sockets).Perm sockets.values :=
  (sortStable_perm _ _).map Prod.snd

theorem mem_links_iff {id child : BlockId} : child ∈ w.links id ↔ w.LinksTo id child := by
  unfold links LinksTo
  cases w.block? id with
  | none => simp
  | some b =>
    have hvalues := (inSocketOrder_perm b.values).mem_iff (a := child)
    have hstatements := (inSocketOrder_perm b.statements).mem_iff (a := child)
    simp [Block.links, hvalues, hstatements]

/-! ## The walk block by block -/

/-- Entering some blocks, one after the other, where `seen` holds the blocks entered so far, latest
first. On the way into a block come what its sockets hold and the stack below; a block that was
entered before is passed over, and with it the rest of the stack that it is met in. -/
inductive Collects (w : Workspace) : List BlockId → List BlockId → List BlockId → Prop
  | done (seen : List BlockId) : Collects w [] seen seen
  | again {id : BlockId} {others seen visited : List BlockId} :
    id ∈ seen → Collects w others seen visited → Collects w (id :: others) seen visited
  | block {id : BlockId} {b : Block} {others seen inside below visited : List BlockId} :
    id ∉ seen → w.block? id = some b → Collects w b.held (id :: seen) inside →
    Collects w b.next.toList inside below → Collects w others below visited →
    Collects w (id :: others) seen visited

/-- Entering some blocks and then others. -/
theorem Collects.of_append {ids others seen visited : List BlockId}
    (h : w.Collects (ids ++ others) seen visited) :
    ∃ between, w.Collects ids seen between ∧ w.Collects others between visited := by
  obtain ⟨all, hall⟩ : ∃ all, all = ids ++ others := ⟨_, rfl⟩
  rw [← hall] at h
  induction h generalizing ids with
  | done seen =>
    obtain ⟨rfl, rfl⟩ := List.append_eq_nil_iff.1 hall.symm
    exact ⟨seen, .done seen, .done seen⟩
  | @again id rest seen visited hid hrest ih =>
    cases ids with
    | nil =>
      obtain rfl : id :: rest = others := hall
      exact ⟨seen, .done seen, .again hid hrest⟩
    | cons id' ids =>
      obtain ⟨rfl, hrest'⟩ := List.cons.inj hall
      obtain ⟨between, hids, hothers⟩ := ih hrest'
      exact ⟨between, .again hid hids, hothers⟩
  | @block id b rest seen inside below visited hid hb hheld hnext hrest _ _ ih =>
    cases ids with
    | nil =>
      obtain rfl : id :: rest = others := hall
      exact ⟨seen, .done seen, .block hid hb hheld hnext hrest⟩
    | cons id' ids =>
      obtain ⟨rfl, hrest'⟩ := List.cons.inj hall
      obtain ⟨between, hids, hothers⟩ := ih hrest'
      exact ⟨between, .block hid hb hheld hnext hids, hothers⟩

/-- A walk that takes the links of a block onto its agenda enters the blocks one after the other. -/
theorem Visits.collects (h : w.IsValid) {agenda seen visited : List BlockId}
    (hvisits : w.Visits agenda seen visited) (hagenda : ∀ id ∈ agenda, id < w.size)
    {ids others : List BlockId} (hsplit : agenda = ids ++ others) :
    ∃ between, w.Collects ids seen between ∧ w.Visits others between visited := by
  induction hvisits generalizing ids with
  | ends seen =>
    obtain ⟨rfl, rfl⟩ := List.append_eq_nil_iff.1 hsplit.symm
    exact ⟨seen, .done seen, .ends seen⟩
  | @skip id agenda seen visited hid hrest ih =>
    cases ids with
    | nil =>
      obtain rfl : id :: agenda = others := hsplit
      exact ⟨seen, .done seen, .skip hid hrest⟩
    | cons id' ids =>
      obtain ⟨rfl, hsplit'⟩ := List.cons.inj hsplit
      obtain ⟨between, hids, hothers⟩ :=
        ih (fun j hj => hagenda j (List.mem_cons_of_mem _ hj)) hsplit'
      exact ⟨between, .again hid hids, hothers⟩
  | @visit id agenda seen visited hid hrest ih =>
    cases ids with
    | nil =>
      obtain rfl : id :: agenda = others := hsplit
      exact ⟨seen, .done seen, .visit hid hrest⟩
    | cons id' ids =>
      obtain ⟨rfl, hsplit'⟩ : id = id' ∧ agenda = ids ++ others := List.cons.inj hsplit
      obtain ⟨b, hb⟩ := IsValid.exists_block? (hagenda id List.mem_cons_self)
      -- the links of the block stand in front of the agenda: its sockets, then the block below
      have hlinks : w.links id = b.held ++ b.next.toList := by rw [links, hb]; rfl
      have hsplit'' : w.links id ++ agenda = b.held ++ (b.next.toList ++ ids) ++ others := by
        rw [hlinks, hsplit']
        simp only [List.append_assoc]
      obtain ⟨between, hids, hothers⟩ := ih
        (fun j hj => (List.mem_append.1 hj).elim (h.links id j) fun hj =>
          hagenda j (List.mem_cons_of_mem _ hj)) hsplit''
      obtain ⟨inside, hheld, hids⟩ := hids.of_append
      obtain ⟨below, hnext, hids⟩ := hids.of_append
      exact ⟨between, .block hid hb hheld hnext hids, hothers⟩

/-! ## What is visited -/

theorem Visits.nodup {agenda seen visited : List BlockId} (h : w.Visits agenda seen visited)
    (hseen : seen.Nodup) : visited.Nodup := by
  induction h with
  | ends seen => exact hseen
  | skip _ _ ih => exact ih hseen
  | visit hid _ ih => exact ih (List.nodup_cons.2 ⟨hid, hseen⟩)

/-- Links lead from the agenda to what a walk visits. -/
theorem Visits.reached {agenda seen visited : List BlockId} (h : w.Visits agenda seen visited)
    {x : BlockId} (hx : x ∈ visited) :
    x ∈ seen ∨ ∃ id ∈ agenda, Relation.ReflTransGen w.LinksTo id x := by
  induction h with
  | ends seen => exact .inl hx
  | skip _ _ ih =>
    exact (ih hx).imp_right fun ⟨id, hid, hreach⟩ => ⟨id, List.mem_cons_of_mem _ hid, hreach⟩
  | @visit id agenda seen visited _ _ ih =>
    rcases ih hx with hseen | ⟨j, hj, hreach⟩
    · rcases List.mem_cons.1 hseen with rfl | hseen
      · exact .inr ⟨x, List.mem_cons_self, .refl⟩
      · exact .inl hseen
    · rcases List.mem_append.1 hj with hj | hj
      · exact .inr ⟨id, List.mem_cons_self, .head (mem_links_iff.1 hj) hreach⟩
      · exact .inr ⟨j, List.mem_cons_of_mem _ hj, hreach⟩

theorem programOrder_nodup (w : Workspace) : w.programOrder.Nodup :=
  (List.reverse_perm _).nodup_iff.1 (w.programOrder_visits.nodup .nil)

/-- A block is in program order exactly if links lead to it from a stack on the canvas. -/
theorem mem_programOrder_iff {id : BlockId} : id ∈ w.programOrder ↔ w.IsReached id := by
  constructor
  · intro hid
    rcases w.programOrder_visits.reached (List.mem_reverse.2 hid) with hseen | ⟨root, hroot, hreach⟩
    · cases hseen
    · exact ⟨root, w.topBlocks_perm.mem_iff.1 hroot, hreach⟩
  · rintro ⟨root, hroot, hreach⟩
    induction hreach with
    | refl => exact w.programOrder_spec.1 root hroot
    | tail _ hlink ih => exact w.programOrder_spec.2 _ ih _ (mem_links_iff.2 hlink)

/-! ## The blocks of a type -/

/-- The program order of a type has the enabled blocks of this type to which links lead from a stack
on the canvas, each of them once, and no other. The walk behind it ends and meets no link to a block
that is missing. -/
structure OrdersReached (w : Workspace) (type : String) : Prop where
  nodup : (w.ofTypeInProgramOrder type).Nodup
  mem_iff : ∀ id, id ∈ w.ofTypeInProgramOrder type ↔
    w.IsReached id ∧ ∃ b, w.block? id = some b ∧ b.disabled = false ∧ b.type = type
  collects : w.Collects w.topBlocks [] w.programOrder.reverse

/-- On valid links, whatever graph they form, program order is reachability. -/
theorem IsValid.ordersReached (h : w.IsValid) (type : String) : w.OrdersReached type where
  nodup := w.programOrder_nodup.filter _
  mem_iff id := by
    rw [ofTypeInProgramOrder, List.mem_filter, mem_programOrder_iff, isEnabled]
    cases w.block? id <;> simp
  collects := by
    have htop : ∀ id ∈ w.topBlocks, id < w.size := fun id hid =>
      h.top id (w.topBlocks_perm.mem_iff.1 hid)
    obtain ⟨between, hcollects, hrest⟩ :=
      w.programOrder_visits.collects h htop (List.append_nil _).symm
    cases hrest
    exact hcollects

/-- A loop that holds a disabled comment; below the comment and below the loop stands one pause, which
has the comment below it again. A pause in its socket has the loop below it, and a last pause is not
linked to. -/
def reentrant : Workspace where
  blocks := #[
    { id := "loop", type := "controls_repeat", statements := ⟨[("DO", 1)]⟩, next := some 2 },
    { id := "comment", type := "comment", disabled := true, next := some 2 },
    { id := "outer", type := "pause", values := ⟨[("PAUSE_TIME", 3)]⟩, next := some 1 },
    { id := "inner", type := "pause", next := some 0 },
    { id := "apart", type := "pause" }]
  top := [0, 2]
  index := [0, 1, 2, 3, 4]

theorem IsValid.ordersReached_reentrant :
    reentrant.IsValid ∧ reentrant.ofTypeInProgramOrder "pause" = [2, 3] ∧
      reentrant.OrdersReached "pause" := by
  have hvalid : reentrant.IsValid := by
    refine ⟨fun id => ?_, by decide⟩
    match id with
    | 0 => decide
    | 1 => decide
    | 2 => decide
    | 3 => decide
    | 4 => decide
    | id + 5 => exact nofun
  exact ⟨hvalid, by decide, hvalid.ordersReached "pause"⟩

end Workspace

end BlockCompiler
