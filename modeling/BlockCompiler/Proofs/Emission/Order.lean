import BlockCompiler.Proofs.Document.Text
import BlockCompiler.Proofs.Emission.Once
import BlockCompiler.Proofs.Workspace.Preorder
import BlockCompiler.Proofs.Workspace.Socket

set_option autoImplicit false

/-! # Program order and the order of starts

Program order visits all sockets of a block, sorted by their names; a recipe asks for the sockets that
its kind names, in an order of its own, and passes others over. On the blocks of stacks the two orders
agree, since every kind names its stacks in the order of sockets. On values they need not agree: what is
plugged into a value socket is read where the recipe needs it. -/

namespace BlockCompiler

/-! ## The stacks of a block -/

/-- The name of a socket for a stack. -/
def Slot.stackName? : Slot → Option String
  | .value _ => none
  | .stack socket => some socket

namespace Emit

/-- The sockets of stacks that a kind of block reads, in the order in which it reads them. -/
def stackNames (b : Block) (kind : Kind) : List String := (slots b kind).filterMap Slot.stackName?

theorem stackNames_branch (b : Block) : stackNames b .branch =
    (List.range (conditionCount b)).map (fun n => "DO" ++ toString n) ++ ["ELSE"] := by
  unfold stackNames slots
  rw [List.filterMap_append, List.filterMap_flatMap, ← List.flatMap_singleton' (List.map _ _),
    List.flatMap_map]
  rfl

/-- A kind reads its stacks in the order of sockets. -/
theorem stackNames_pairwise (b : Block) (kind : Kind) : (stackNames b kind).Pairwise fun s s' =>
    (SocketKey.ofName s).sortKey < (SocketKey.ofName s').sortKey := by
  cases kind with
  | branch =>
    have hbranch : ∀ n ∈ List.range (conditionCount b),
        SocketKey.ofName ("DO" ++ toString n) = ⟨"DO", n⟩ := by
      intro n hn
      have hcount : conditionCount b < Block.greatestCount + 1 := Nat.mod_lt _ (Nat.zero_lt_succ _)
      have hlt := List.mem_range.1 hn
      exact SocketKey.ofName_branch (by omega)
    have helse : SocketKey.ofName "ELSE" = ⟨"ELSE", 0⟩ := by decide
    rw [stackNames_branch]
    refine List.pairwise_append.2 ⟨?_, List.pairwise_singleton _ _, ?_⟩
    · refine List.pairwise_map.2 (List.pairwise_lt_range.imp_of_mem fun {n m} hn hm hlt => ?_)
      rw [hbranch n hn, hbranch m hm]
      exact Prod.Lex.toLex_lt_toLex.2 (.inr ⟨rfl, hlt⟩)
    · intro name hname last hlast
      obtain ⟨n, hn, rfl⟩ := List.mem_map.1 hname
      rw [List.mem_singleton.1 hlast, hbranch n hn, helse]
      have hstem : "DO" < "ELSE" := by decide
      exact Prod.Lex.toLex_lt_toLex.2 (.inl hstem)
  | _ => simp [stackNames, slots, Slot.stackName?, List.filterMap_cons]

end Emit

/-! ## Blocks in stacks -/

namespace Workspace

/-- A block stands in a statement socket of another one or below it. -/
def Hangs (w : Workspace) (id child : BlockId) : Prop :=
  ∃ b, w.block? id = some b ∧ (child ∈ b.statements.values ∨ b.next = some child)

/-- Statement sockets and next links alone lead from a stack on the canvas to a block. -/
def IsStacked (w : Workspace) (id : BlockId) : Prop :=
  ∃ root ∈ w.top, Relation.ReflTransGen w.Hangs root id

open Classical in
/-- The blocks of a list that stand in stacks. -/
noncomputable def stacked (w : Workspace) (ids : List BlockId) : List BlockId :=
  ids.filter fun id => w.IsStacked id

variable {w : Workspace}

theorem mem_stacked {ids : List BlockId} {id : BlockId} :
    id ∈ w.stacked ids ↔ id ∈ ids ∧ w.IsStacked id := by
  simp only [stacked, List.mem_filter, decide_eq_true_eq]

theorem stacked_append (ids ids' : List BlockId) :
    w.stacked (ids ++ ids') = w.stacked ids ++ w.stacked ids' :=
  List.filter_append _ _

theorem stacked_flatMap {α : Type} (f : α → List BlockId) (as : List α) :
    w.stacked (as.flatMap f) = as.flatMap fun a => w.stacked (f a) :=
  List.filter_flatMap

theorem stacked_sublist {ids ids' : List BlockId} (h : ids.Sublist ids') :
    (w.stacked ids).Sublist (w.stacked ids') :=
  h.filter _

theorem Hangs.linksTo {id child : BlockId} (h : w.Hangs id child) : w.LinksTo id child := by
  obtain ⟨b, hb, hchild⟩ := h
  exact ⟨b, hb, .inr hchild⟩

theorem linksTo_of_mem_held {id child : BlockId} (hchild : child ∈ w.held id) :
    w.LinksTo id child := by
  refine mem_links_iff.1 ?_
  unfold held links at *
  cases hb : w.block? id with
  | none => rw [hb] at hchild; cases hchild
  | some b =>
    rw [hb] at hchild
    exact List.mem_append_left _ hchild

namespace IsForest

variable (h : w.IsForest w.top) (hnames : w.All Block.NamesOnce)

include h hnames

/-- Whatever leads to a block in a stack stands in a stack. -/
theorem isStacked_of_reaches {a x : BlockId} (hx : w.IsStacked x) (hax : w.Reaches a x) :
    w.IsStacked a := by
  obtain ⟨root, hroot, hhangs⟩ := hx
  induction hhangs with
  | refl => exact ⟨root, hroot, h.eq_of_reaches_root hnames hroot hax ▸ .refl⟩
  | @tail parent x hparent hlast ih =>
    rcases Relation.ReflTransGen.cases_tail hax with rfl | ⟨c, hac, hcx⟩
    · exact ⟨root, hroot, hparent.tail hlast⟩
    · obtain rfl := h.linksTo_leftUnique hnames hcx hlast.linksTo
      exact ih hac

theorem stacked_subtree_eq_nil {id : BlockId} (hid : ¬w.IsStacked id) :
    w.stacked (w.subtree id) = [] := by
  refine List.eq_nil_iff_forall_not_mem.2 fun x hmem => hid ?_
  obtain ⟨hx, hstacked⟩ := mem_stacked.1 hmem
  refine h.isStacked_of_reaches hnames hstacked ?_
  rcases List.mem_cons.1 hx with rfl | hx
  · exact .refl
  · obtain ⟨child, hchild, hx⟩ := List.mem_flatMap.1 hx
    exact .head (linksTo_of_mem_held hchild) (h.reaches_of_mem_preorder hnames hx)

/-- What is plugged into a value socket stands in no stack. -/
theorem not_isStacked_of_value {id x : BlockId} {socket : String}
    (ht : w.target? id (.value socket) = some x) : ¬w.IsStacked x := by
  rintro ⟨root, hroot, hhangs⟩
  rcases Relation.ReflTransGen.cases_tail hhangs with rfl | ⟨parent, -, b, hb, hx⟩
  · exact h.rooted ht hroot
  · have hother : ∃ link, (∀ socket, link ≠ .value socket) ∧ w.target? parent link = some x := by
      rcases hx with hx | hx
      · obtain ⟨entry, hentry, rfl⟩ := List.mem_map.1 hx
        have hget := (Ledger.get?_eq_some_iff (hnames parent b hb).statements).2 hentry
        exact ⟨.statement entry.1, nofun, (target?_of_block? hb _).trans hget⟩
      · exact ⟨.next, nofun, (target?_of_block? hb _).trans hx⟩
    obtain ⟨link, hne, htarget⟩ := hother
    exact hne socket (h.once htarget ht).2

end IsForest

end Workspace

/-! ## What a block asks for -/

namespace Project

open Workspace

variable {p : Project}

/-- The blocks in stacks among a block and everything in its sockets. -/
noncomputable def share (p : Project) (id : BlockId) : List BlockId :=
  p.workspace.stacked (p.workspace.subtree id)

variable (h : p.workspace.IsForest p.workspace.top) (hnames : p.workspace.All Block.NamesOnce)

include h hnames

/-- The members of a stack that are asked for have their shares in the order of the stack's tree. -/
theorem members_share_sublist {head : BlockId} (hhead : head < p.workspace.size) :
    (((p.workspace.chainFrom head).members.filter p.workspace.takesPart).flatMap p.share).Sublist
      (p.workspace.stacked (p.workspace.preorder head)) := by
  rw [h.preorder_eq_of_isStack hnames (h.chainFrom_isStack hhead), stacked_flatMap]
  exact List.filter_sublist.flatMap p.share

/-- What is asked for in a value socket has no share, and a stack has its own. -/
theorem filled_share_sublist {id : BlockId} {b : Block} (hb : p.workspace.block? id = some b)
    (slot : Slot) : ((p.filled b slot).flatMap p.share).Sublist
      ((slot.stackName?.bind b.statements.get?).toList.flatMap fun head =>
        p.workspace.stacked (p.workspace.preorder head)) := by
  cases slot with
  | value socket =>
    refine List.sublist_nil.2 (List.flatMap_eq_nil_iff.2 fun x hx => ?_)
    obtain ⟨child, hplugged⟩ := mem_filled_value.1 hx
    have ht := (target?_of_block? hb (.value socket)).trans (plugged?_eq_some hplugged).1
    exact h.stacked_subtree_eq_nil hnames (h.not_isStacked_of_value hnames ht)
  | stack socket =>
    cases hhead : b.statements.get? socket with
    | none => simp [filled, hhead]
    | some head =>
      have ht := (target?_of_block? hb (.statement socket)).trans hhead
      simpa [filled, hhead, Slot.stackName?] using
        members_share_sublist h hnames (h.ascends ht).2

/-- What a recipe asks for has its shares in program order. -/
theorem reads_share_sublist {id : BlockId} {b : Block} (hb : p.workspace.block? id = some b) :
    ((p.reads b).flatMap p.share).Sublist
      (p.workspace.stacked ((p.workspace.held id).flatMap p.workspace.preorder)) := by
  unfold reads
  split
  · next kind _ =>
    let stack : BlockId → List BlockId := fun head =>
      p.workspace.stacked (p.workspace.preorder head)
    have hslots : (((Emit.slots b kind).flatMap (p.filled b)).flatMap p.share).Sublist
        (((Emit.stackNames b kind).filterMap b.statements.get?).flatMap stack) := by
      rw [Emit.stackNames, List.filterMap_filterMap, List.filterMap_eq_flatMap_toList,
        List.flatMap_assoc, List.flatMap_assoc]
      exact List.Sublist.flatMap_right _ fun slot _ => filled_share_sublist h hnames hb slot
    have hnamed := filterMap_sublist_inSocketOrder (Emit.stackNames_pairwise b kind)
      (hnames id b hb).statements
    have hheld : (inSocketOrder b.statements).Sublist (p.workspace.held id) := by
      rw [held, hb]
      exact List.sublist_append_right _ _
    rw [stacked_flatMap]
    exact hslots.trans ((hnamed.trans hheld).flatMap stack)
  · exact List.nil_sublist _

/-- What the main function asks for has its shares in program order. -/
theorem mainReads_share_sublist :
    (p.mainReads.flatMap p.share).Sublist (p.workspace.stacked p.workspace.programOrder) := by
  rw [h.programOrder_eq hnames rfl, stacked_flatMap, mainReads, List.flatMap_assoc]
  refine List.Sublist.flatMap_right _ fun id hid => ?_
  have hchain := members_share_sublist h hnames (mem_top_of_mem_topBlocks h hid).2
  unfold stackReads
  split
  · exact List.nil_sublist _
  · next b hb =>
    split
    · split
      · exact hchain
      · rw [List.flatMap_singleton, h.preorder_eq_subtree_append hnames hb]
        exact stacked_sublist (List.sublist_append_left _ _)
    · exact List.nil_sublist _
    · exact hchain

/-! ## Starts -/

omit h hnames

/-- Of the blocks that the code of a block starts, those in stacks are started in program order, if
all blocks that are being made come before. -/
def StartsInOrder (p : Project) : Law := fun id s _ t =>
  (∀ j : Nat, j ∈ s.active → j < id) →
    ∃ new, t.started = new ++ s.started ∧ (p.workspace.stacked new.reverse).Sublist (p.share id)

/-- The events of a path start blocks in the order in which the path asks for code. -/
theorem steps_startInOrder {active : List BlockId} {es : List Event} {s t : Emission}
    (hsteps : Emission.Steps p.StartsInOrder active es s t)
    (hbefore : ∀ x : Nat, x ∈ Event.asked es → ∀ j : Nat, j ∈ active → j < x) :
    ∃ new, t.started = new ++ s.started ∧
      (p.workspace.stacked new.reverse).Sublist ((Event.asked es).flatMap p.share) := by
  induction hsteps with
  | nil s => exact ⟨[], rfl, List.nil_sublist _⟩
  | did action _ ih => exact ih hbefore
  | drew _ ih => exact ih hbefore
  | @made s t u es id fragment hactive hlaw _ ih =>
    obtain ⟨new, hnew, hshare⟩ := hlaw fun j hj => hbefore id List.mem_cons_self j (hactive ▸ hj)
    obtain ⟨new', hnew', hshare'⟩ := ih fun x hx => hbefore x (List.mem_cons_of_mem _ hx)
    refine ⟨new' ++ new, by rw [hnew', hnew, List.append_assoc], ?_⟩
    rw [List.reverse_append, stacked_append]
    exact hshare.append hshare'

include h hnames

theorem emit_startsInOrder (id : BlockId) (s : Emission) (hs : s.Nested p.workspace) :
    p.StartsInOrder id s (p.emit id s).1 (p.emit id s).2 := by
  refine (emit_induction p.StartsInOrder ?_ ?_ ?_ id s hs).2
  · exact fun id s _ _ => ⟨[], rfl, List.nil_sublist _⟩
  · intro id b s _ hid hbefore
    exact absurd (hbefore id hid) (Nat.lt_irrefl id)
  · intro id b s es fragment t hb _ htook hsteps hbefore
    have hreads : ∀ x ∈ Event.asked es, p.Reads id x := fun x hx => ⟨b, hb, htook.asked.subset hx⟩
    obtain ⟨new, hnew, hshare⟩ := steps_startInOrder hsteps fun x hx =>
      before_of_reads h hbefore (hreads x hx)
    have hstarted : t.started = (new ++ [id]) ++ s.started := by
      rw [hnew, List.append_assoc]
      rfl
    refine ⟨new ++ [id], hstarted, ?_⟩
    -- the block itself comes first, then what it asks for
    have hreverse : (new ++ [id]).reverse = [id] ++ new.reverse := List.reverse_append
    have hsubtree : p.workspace.subtree id =
        [id] ++ (p.workspace.held id).flatMap p.workspace.preorder := rfl
    rw [hreverse, share, hsubtree, stacked_append, stacked_append]
    refine (List.Sublist.refl _).append (hshare.trans ((htook.asked.flatMap p.share).trans ?_))
    exact reads_share_sublist h hnames hb

/-- A program starts the blocks in stacks in program order. -/
theorem stacked_started_sublist :
    (p.workspace.stacked p.final.started.reverse).Sublist p.workspace.programOrder := by
  obtain ⟨es, -, hsteps, -, hasked, -⟩ := final_steps (emit_startsInOrder h hnames)
  obtain ⟨new, hnew, hshare⟩ := steps_startInOrder hsteps fun _ _ _ hj => nomatch hj
  have hstarted : p.final.started = new := hnew.trans (List.append_nil new)
  rw [hstarted]
  refine (hshare.trans (hasked.flatMap p.share)).trans ?_
  exact (mainReads_share_sublist h hnames).trans List.filter_sublist

end Project

/-! ## Documents -/

/-- However loops, functions and branches are nested in a document, and for whatever board: the blocks of
a type that stand in stacks and whose recipes are carried out are so in program order. -/
theorem Document.started_inProgramOrder {parse : Markup.Parser} {source : String} {d : Document}
    (h : load parse source = .ok d) (board? : Option Board) (type : String) :
    compileSource parse source board? = .ok (d.project board?).compile ∧
      ((d.workspace.stacked (d.project board?).final.started.reverse).filter fun id =>
        d.workspace.isEnabled id (·.type == type)).Sublist
        (d.workspace.ofTypeInProgramOrder type) := by
  refine ⟨by rw [compileSource, h]; rfl, ?_⟩
  have hstarted := Project.stacked_started_sublist (p := d.project board?) (load_isForest h)
    (load_namesOnce h)
  exact hstarted.filter _

/-- A branch block whose last branch was filled first and whose first one holds a loop, and above it on
the canvas a function that was added later. -/
def Document.nested : Document where
  workspace :=
    { blocks := #[
        { id := "controls_if#0", type := "controls_if", y := 9
          mutation := ⟨[("elseif", "1"), ("else", "1")]⟩
          statements := ⟨[("ELSE", 1), ("DO1", 2), ("DO0", 3)]⟩ },
        { id := "base_delay#1", type := "base_delay" },
        { id := "base_delay#2", type := "base_delay" },
        { id := "controls_repeat#3", type := "controls_repeat", statements := ⟨[("DO", 4)]⟩ },
        { id := "base_delay#4", type := "base_delay" },
        { id := "procedures_defnoreturn#5", type := "procedures_defnoreturn"
          statements := ⟨[("STACK", 6)]⟩ },
        { id := "base_delay#6", type := "base_delay" }]
      top := [0, 5]
      index := [0, 1, 2, 3, 4, 5, 6] }
  board? := none

/-- The text of the document above. -/
def Document.nestedText : String :=
  "<xml><block type='controls_if' y='9'><mutation elseif='1' else='1'/>" ++
    "<statement name='ELSE'><block type='base_delay'/></statement>" ++
    "<statement name='DO1'><block type='base_delay'/></statement>" ++
    "<statement name='DO0'><block type='controls_repeat'>" ++
    "<statement name='DO'><block type='base_delay'/></statement></block></statement></block>" ++
    "<block type='procedures_defnoreturn'>" ++
    "<statement name='STACK'><block type='base_delay'/></statement></block></xml>"

theorem Document.started_inProgramOrder_nested :
    ofText nestedText = .ok nested ∧
      (nested.project none).final.started.reverse = [5, 6, 0, 3, 4, 2, 1] ∧
      ((nested.workspace.stacked (nested.project none).final.started.reverse).filter fun id =>
        nested.workspace.isEnabled id (·.type == "base_delay")).Sublist [6, 4, 2, 1] := by
  have h : ofText nestedText = .ok nested :=
    ofText_of_chars (append_eq_ofList (append_eq_ofList (append_eq_ofList (append_eq_ofList
      (append_eq_ofList (append_eq_ofList rfl rfl) rfl) rfl) rfl) rfl) rfl) (by decide +kernel)
  have horder : nested.workspace.ofTypeInProgramOrder "base_delay" = [6, 4, 2, 1] := by
    decide +kernel
  refine ⟨h, by decide +kernel, ?_⟩
  rw [← horder]
  exact (started_inProgramOrder h none "base_delay").2

end BlockCompiler
