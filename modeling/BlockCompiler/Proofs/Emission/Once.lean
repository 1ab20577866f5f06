import BlockCompiler.Proofs.Emission.Ownership
import BlockCompiler.Proofs.Text.Literal

set_option autoImplicit false

/-! # Every block at most once

Over a forest the recipe of a block is started at most once. A recipe asks for each of the blocks that
it reads once, and what one of them leads to is never reached from another one; so the blocks started
for two of them are different ones. The same holds of the main function. -/

namespace BlockCompiler

/-! ## Sockets -/

/-- The sockets of the numbered branches of a branch block. -/
theorem branchSlots_nodup (ns : List Nat) (h : ns.Nodup) :
    (ns.flatMap fun n => [Slot.value ("IF" ++ toString n), .stack ("DO" ++ toString n)]).Nodup := by
  refine List.nodup_flatMap.2 ⟨fun n _ => by simp, h.imp fun {n m} hne => ?_⟩
  intro slot hn hm
  simp only [List.mem_cons, List.not_mem_nil, or_false] at hn hm
  rcases hn with rfl | rfl <;> rcases hm with hm | hm
  · exact hne (Text.append_toString_injective (Slot.value.inj hm))
  · cases hm
  · cases hm
  · exact hne (Text.append_toString_injective (Slot.stack.inj hm))

/-- A kind reads each of its sockets once. -/
theorem Emit.slots_nodup (b : Block) (kind : Kind) : (slots b kind).Nodup := by
  cases kind with
  | branch =>
    refine List.nodup_append.2 ⟨branchSlots_nodup _ List.nodup_range, List.nodup_singleton _, ?_⟩
    intro slot hslot last hlast heq
    obtain rfl := List.mem_singleton.1 hlast
    obtain ⟨n, -, hslot⟩ := List.mem_flatMap.1 hslot
    simp only [List.mem_cons, List.not_mem_nil, or_false] at hslot
    rcases hslot with rfl | rfl
    · cases heq
    · -- The two names differ in their first characters.
      have hchars := congrArg String.toList (Slot.stack.inj heq)
      rw [String.toList_append] at hchars
      cases hchars
  | _ => simp [slots]

namespace Project

open Workspace

variable {p : Project}

/-! ## Calls -/

/-- A block's recipe leads to another one's: it asks for it, or for one that leads to it. -/
def Calls (p : Project) : BlockId → BlockId → Prop := Relation.ReflTransGen p.Reads

section Forest

variable {roots : List BlockId} (h : p.workspace.IsForest roots)

include h

theorem le_of_calls {a x : Nat} (hx : p.Calls a x) : a ≤ x := by
  induction hx with
  | refl => exact Nat.le_refl a
  | tail _ hread ih => exact Nat.le_of_lt (Nat.lt_of_le_of_lt ih (lt_of_reads h hread))

/-- Of two blocks that lead to a common one, one leads to the other. -/
theorem calls_or_calls {a b x : BlockId} (ha : p.Calls a x) (hb : p.Calls b x) :
    p.Calls a b ∨ p.Calls b a := by
  induction ha with
  | refl => exact .inr hb
  | tail ha hread ih =>
    rcases Relation.ReflTransGen.cases_tail hb with rfl | ⟨d, hbd, hd⟩
    · exact .inl (ha.tail hread)
    · obtain rfl := reader_unique h hread hd
      exact ih hbd

/-- What a block reads does not lead to anything else that the block reads. -/
theorem eq_of_reads_of_calls {a x y : Nat} (hx : p.Reads a x) (hy : p.Reads a y)
    (hxy : p.Calls x y) : x = y := by
  rcases Relation.ReflTransGen.cases_tail hxy with rfl | ⟨d, hxd, hd⟩
  · rfl
  · obtain rfl := reader_unique h hy hd
    exact absurd (lt_of_reads h hx) (Nat.not_lt_of_le (le_of_calls h hxd))

/-- Nothing leads to a member of a stack on the canvas but the member itself. -/
theorem eq_of_calls_of_root {root x y : BlockId} (hroot : root ∈ roots)
    (hy : p.workspace.Below root y) (hxy : p.Calls x y) : x = y := by
  rcases Relation.ReflTransGen.cases_tail hxy with rfl | ⟨d, -, hd⟩
  · rfl
  · exact absurd hd (not_reads_of_root h hroot hy)

/-! ## Blocks that are asked for once -/

theorem members_nodup {head : Nat} (hhead : head < p.workspace.size) :
    ((p.workspace.chainFrom head).members.filter p.workspace.takesPart).Nodup := by
  have hascends := (h.chainFrom_spec hhead).ascends
  exact (hascends.imp fun hlt => Nat.ne_of_lt hlt).filter _

theorem filled_nodup {id : BlockId} {b : Block} (hb : p.workspace.block? id = some b)
    (slot : Slot) : (p.filled b slot).Nodup := by
  cases slot with
  | value socket =>
    cases hplugged : p.plugged? b socket <;> simp [filled, hplugged]
  | stack socket =>
    cases hhead : b.statements.get? socket with
    | none => simp [filled, hhead]
    | some head =>
      have ht := (target?_of_block? hb (.statement socket)).trans hhead
      simpa [filled, hhead] using members_nodup h (h.ascends ht).2

/-- A recipe asks for each block once. -/
theorem reads_nodup {id : BlockId} {b : Block} (hb : p.workspace.block? id = some b) :
    (p.reads b).Nodup := by
  unfold reads
  split
  · next kind _ =>
    refine List.nodup_flatMap.2 ⟨fun slot _ => filled_nodup h hb slot, ?_⟩
    refine (Emit.slots_nodup b kind).imp fun {slot slot'} hne x hx hx' => hne ?_
    exact (h.holds_unique (holds_of_mem_filled h hb hx) (holds_of_mem_filled h hb hx')).2
  · exact List.nodup_nil

end Forest

section Main

variable (h : p.workspace.IsForest p.workspace.top)

include h

theorem mem_top_of_mem_topBlocks {id : BlockId} (hid : id ∈ p.workspace.topBlocks) :
    id ∈ p.workspace.top ∧ id < p.workspace.size := by
  have htop := p.workspace.topBlocks_perm.mem_iff.1 hid
  exact ⟨htop, h.valid id htop⟩

/-- The main function asks for members of a stack on the canvas that take part in the program. -/
theorem of_mem_stackReads {id x : BlockId} (hid : id ∈ p.workspace.topBlocks)
    (hx : x ∈ p.stackReads id) : p.workspace.Below id x ∧ p.workspace.takesPart x = true := by
  have hchain : x ∈ (p.workspace.chainFrom id).members.filter p.workspace.takesPart →
      p.workspace.Below id x := fun hx =>
    (h.chainFrom_spec (mem_top_of_mem_topBlocks h hid).2).below x (List.mem_filter.1 hx).1
  refine ⟨?_, takesPart_of_mem_stackReads hx⟩
  unfold stackReads at hx
  split at hx
  · cases hx
  · split at hx
    · split at hx
      · exact hchain hx
      · obtain rfl := List.mem_singleton.1 hx
        exact .refl
    · cases hx
    · exact hchain hx

theorem stackReads_nodup {id : BlockId} (hid : id ∈ p.workspace.topBlocks) :
    (p.stackReads id).Nodup := by
  have hchain := members_nodup h (mem_top_of_mem_topBlocks h hid).2
  unfold stackReads
  split
  · exact List.nodup_nil
  · split
    · split
      · exact hchain
      · exact List.nodup_singleton id
    · exact List.nodup_nil
    · exact hchain

theorem exists_root_of_mem_mainReads {x : BlockId} (hx : x ∈ p.mainReads) :
    ∃ root ∈ p.workspace.top, p.workspace.Below root x := by
  obtain ⟨id, hid, hx⟩ := List.mem_flatMap.1 hx
  exact ⟨id, (mem_top_of_mem_topBlocks h hid).1, (of_mem_stackReads h hid hx).1⟩

/-- The main function asks for each block once. -/
theorem mainReads_nodup : p.mainReads.Nodup := by
  refine List.nodup_flatMap.2 ⟨fun id hid => stackReads_nodup h hid, ?_⟩
  have htop : p.workspace.topBlocks.Nodup := p.workspace.topBlocks_perm.nodup_iff.2 h.nodup
  refine htop.imp_of_mem fun {id id'} hid hid' hne x hx hx' => hne ?_
  obtain ⟨hroot, -⟩ := mem_top_of_mem_topBlocks h hid
  obtain ⟨hroot', -⟩ := mem_top_of_mem_topBlocks h hid'
  exact h.head_unique (fun _ hd => h.rooted hd hroot) (fun _ hd => h.rooted hd hroot')
    (of_mem_stackReads h hid hx).1 (of_mem_stackReads h hid' hx').1

end Main

/-! ## Starts -/

/-- The blocks that the code of a block starts are different ones and are led to from the block, if
all blocks that are being made come before. -/
def StartsOnce (p : Project) : Law := fun id s _ t =>
  (∀ j : Nat, j ∈ s.active → j < id) →
    ∃ new, t.started = new ++ s.started ∧ new.Nodup ∧ ∀ x ∈ new, p.Calls id x

/-- The events of a path start different blocks if none of the blocks that the path asks for leads to
another one. -/
theorem steps_started (h : p.workspace.IsForest p.workspace.top) {active : List BlockId}
    {es : List Event} {s t : Emission} (hsteps : Emission.Steps p.StartsOnce active es s t)
    (hnodup : (Event.asked es).Nodup)
    (hapart : ∀ x ∈ Event.asked es, ∀ y ∈ Event.asked es, p.Calls x y → x = y)
    (hbefore : ∀ x : Nat, x ∈ Event.asked es → ∀ j : Nat, j ∈ active → j < x) :
    ∃ new, t.started = new ++ s.started ∧ new.Nodup ∧
      ∀ x ∈ new, ∃ c ∈ Event.asked es, p.Calls c x := by
  induction hsteps with
  | nil s => exact ⟨[], rfl, List.nodup_nil, nofun⟩
  | did action _ ih => exact ih hnodup hapart hbefore
  | drew _ ih => exact ih hnodup hapart hbefore
  | @made s t u es id fragment hactive hlaw _ ih =>
    obtain ⟨hid, hnodup⟩ := List.nodup_cons.1 hnodup
    have hrest : ∀ x ∈ Event.asked es, x ∈ Event.asked (.made id fragment :: es) :=
      fun x hx => List.mem_cons_of_mem _ hx
    obtain ⟨new, hnew, hnewNodup, hnewCalls⟩ :=
      hlaw fun j hj => hbefore id List.mem_cons_self j (hactive ▸ hj)
    obtain ⟨new', hnew', hnewNodup', hnewCalls'⟩ := ih hnodup
      (fun x hx y hy => hapart x (hrest x hx) y (hrest y hy)) (fun x hx => hbefore x (hrest x hx))
    refine ⟨new' ++ new, by rw [hnew', hnew, List.append_assoc], ?_, fun x hx => ?_⟩
    · refine List.nodup_append.2 ⟨hnewNodup', hnewNodup, fun x hx y hy hxy => ?_⟩
      subst hxy
      obtain ⟨c, hc, hcx⟩ := hnewCalls' x hx
      -- a block below two others is below one of them through the other one
      have hidc : id = c := by
        rcases calls_or_calls h (hnewCalls x hy) hcx with hcalls | hcalls
        · exact hapart id List.mem_cons_self c (hrest c hc) hcalls
        · exact (hapart c (hrest c hc) id List.mem_cons_self hcalls).symm
      exact hid (hidc ▸ hc)
    · rcases List.mem_append.1 hx with hx | hx
      · obtain ⟨c, hc, hcx⟩ := hnewCalls' x hx
        exact ⟨c, hrest c hc, hcx⟩
      · exact ⟨id, List.mem_cons_self, hnewCalls x hx⟩

variable (h : p.workspace.IsForest p.workspace.top)

include h

theorem emit_startsOnce (id : BlockId) (s : Emission) (hs : s.Nested p.workspace) :
    p.StartsOnce id s (p.emit id s).1 (p.emit id s).2 := by
  refine (emit_induction p.StartsOnce ?_ ?_ ?_ id s hs).2
  · exact fun id s _ _ => ⟨[], rfl, List.nodup_nil, nofun⟩
  · intro id b s _ hid hbefore
    exact absurd (hbefore id hid) (Nat.lt_irrefl id)
  · intro id b s es fragment t hb _ htook hsteps hbefore
    have hreads : ∀ x ∈ Event.asked es, p.Reads id x := fun x hx => ⟨b, hb, htook.asked.subset hx⟩
    obtain ⟨new, hnew, hnodup, hcalls⟩ := steps_started h hsteps
      (htook.asked.nodup (reads_nodup h hb))
      (fun x hx y hy => eq_of_reads_of_calls h (hreads x hx) (hreads y hy))
      (fun x hx => before_of_reads h hbefore (hreads x hx))
    have hstarted : t.started = (new ++ [id]) ++ s.started := by
      rw [hnew, List.append_assoc]
      rfl
    refine ⟨new ++ [id], hstarted, ?_, fun x hx => ?_⟩
    · refine List.nodup_append.2 ⟨hnodup, List.nodup_singleton id, fun x hx y hy hxy => ?_⟩
      rw [List.mem_singleton.1 hy] at hxy
      subst hxy
      -- what the block reads comes after it, so nothing below is the block itself
      obtain ⟨c, hc, hcx⟩ := hcalls x hx
      exact absurd (lt_of_reads h (hreads c hc)) (Nat.not_lt_of_le (le_of_calls h hcx))
    · rcases List.mem_append.1 hx with hx | hx
      · obtain ⟨c, hc, hcx⟩ := hcalls x hx
        exact .head (hreads c hc) hcx
      · rw [List.mem_singleton.1 hx]
        exact .refl

/-- A program starts each block at most once, and only blocks that the main function leads to. -/
theorem final_started : p.final.started.Nodup ∧
    ∀ x ∈ p.final.started, ∃ c ∈ p.mainReads, p.Calls c x := by
  obtain ⟨es, -, hsteps, -, hasked, -⟩ := final_steps (emit_startsOnce h)
  obtain ⟨new, hnew, hnodup, hcalls⟩ := steps_started h hsteps (hasked.nodup (mainReads_nodup h))
    (fun x _ y hy hxy => by
      obtain ⟨root, hroot, hbelow⟩ := exists_root_of_mem_mainReads h (hasked.subset hy)
      exact eq_of_calls_of_root h hroot hbelow hxy) (fun _ _ _ hj => nomatch hj)
  have hstarted : p.final.started = new := hnew.trans (List.append_nil new)
  rw [hstarted]
  refine ⟨hnodup, fun x hx => ?_⟩
  obtain ⟨c, hc, hcx⟩ := hcalls x hx
  exact ⟨c, hasked.subset hc, hcx⟩

/-! ## What is started -/

omit h in
theorem takesPart_of_reads {id x : BlockId} (hx : p.Reads id x) :
    p.workspace.takesPart x = true := by
  obtain ⟨b, -, hx⟩ := hx
  exact takesPart_of_mem_reads hx

theorem mem_programOrder_of_reads {id x : BlockId} (hid : id ∈ p.workspace.programOrder)
    (hx : p.Reads id x) : x ∈ p.workspace.programOrder := by
  obtain ⟨slot, head, ht, hbelow⟩ := holds_of_reads h hx
  exact mem_programOrder_of_below (mem_programOrder_of_target? hid ht) hbelow

/-- What a program starts takes part in it and is in its program order. -/
theorem of_mem_started {x : BlockId} (hx : x ∈ p.final.started) :
    p.workspace.takesPart x = true ∧ x ∈ p.workspace.programOrder := by
  obtain ⟨c, hc, hcx⟩ := (final_started h).2 x hx
  obtain ⟨id, hid, hc⟩ := List.mem_flatMap.1 hc
  obtain ⟨hbelow, htakes⟩ := of_mem_stackReads h hid hc
  have hroot := (programOrder_spec p.workspace).1 id (mem_top_of_mem_topBlocks h hid).1
  clear hx
  -- from a member of a stack on the canvas down to the block, one reader after the other
  induction hcx with
  | refl => exact ⟨htakes, mem_programOrder_of_below hroot hbelow⟩
  | tail _ hread ih => exact ⟨takesPart_of_reads hread, mem_programOrder_of_reads h ih.2 hread⟩

end Project

end BlockCompiler
