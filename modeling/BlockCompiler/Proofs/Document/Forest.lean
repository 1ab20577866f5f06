import BlockCompiler.Document
import BlockCompiler.Proofs.Workspace.Forest

set_option autoImplicit false

/-! # Documents are forests

Reading a document puts its blocks into the workspace in the order in which the document opens them,
and links a block to what stands inside of it when that is complete. A block that is complete but not
linked to yet is a root, and it is linked to once. A link that is written again drops what hung
there, and a block that is brought into another form may lose what was plugged into it; neither adds
a link. So the workspace of every document is a forest, and the heads of its stacks are roots. -/

namespace BlockCompiler

open Workspace

namespace Outline

variable {w : Workspace} {roots : List BlockId}

/-! ## Links -/

/-- A block with another one hung on it. -/
def Link.hang (link : Link) (child : BlockId) (b : Block) : Block :=
  match link with
  | .value socket => { b with values := b.values.put socket child }
  | .statement socket => { b with statements := b.statements.put socket child }
  | .next => { b with next := some child }

theorem connect_eq_modify (link : Link) (w : Workspace) (parent child : BlockId) :
    link.connect w parent child = w.modify parent (link.hang child) := by
  cases link <;> rfl

theorem target?_hang (link : Link) (b : Block) (child : BlockId) (l : Link) :
    (link.hang child b).target? l = if l = link then some child else b.target? l := by
  cases link <;> cases l <;> simp [Link.hang, Block.target?, Ledger.get?_put]

theorem size_connect (link : Link) (w : Workspace) (parent child : BlockId) :
    (link.connect w parent child).size = w.size := by
  rw [connect_eq_modify, size_modify]

/-- A new link leaves all others alone. -/
theorem target?_connect (link : Link) {parent : Nat} (hparent : parent < w.size) (child id : BlockId)
    (l : Link) : (link.connect w parent child).target? id l =
      if id = parent ∧ l = link then some child else w.target? id l := by
  obtain ⟨b, hb⟩ : ∃ b, w.block? parent = some b := ⟨_, Array.getElem?_eq_getElem hparent⟩
  unfold target?
  rw [connect_eq_modify, block?_modify]
  -- only the links of the parent can change
  by_cases hid : parent = id
  · subst hid
    rw [if_pos rfl, hb, Option.map_some, Option.bind_some, target?_hang, Option.bind_some]
    simp only [true_and]
  · rw [if_neg hid, if_neg fun h => hid h.1.symm]

theorem connect_isForest (link : Link) {parent child : Nat} (h : w.IsForest (child :: roots))
    (hlt : parent < child) : (link.connect w parent child).IsForest roots := by
  have hparent : parent < w.size := Nat.lt_trans hlt (h.valid child List.mem_cons_self)
  exact h.connect hlt (size_connect link w parent child) (target?_connect link hparent child)

/-! ## Blocks -/

/-- A change that keeps the links of every block keeps a forest. -/
theorem modify_isForest (h : w.IsForest roots) (id : BlockId) {change : Block → Block}
    (hchange : ∀ b link, (change b).target? link = b.target? link) :
    (w.modify id change).IsForest roots := by
  refine h.of_target?_imp (w.size_modify id change) ?_
  intro j link t ht
  unfold target? at *
  rw [block?_modify] at ht
  split at ht
  · cases hb : w.block? j with
    | none => rw [hb] at ht; cases ht
    | some b =>
      rw [hb, Option.map_some, Option.bind_some, hchange] at ht
      rw [Option.bind_some, ht]
  · exact ht

theorem mutate_target? (attributes : Ledger String) (b : Block) (link : Link) :
    (mutate attributes b).target? link = b.target? link := by
  cases link <;> rfl

/-- The form of a block keeps nothing but what stands below the block. -/
theorem reshape_target?_imp (g : PinGroup) {b : Block} {link : Link} {t : BlockId}
    (h : (g.reshape b).target? link = some t) : b.target? link = some t := by
  cases link with
  | value socket => cases h
  | statement socket => cases h
  | next => exact h

theorem settle_isForest (h : w.IsForest roots) (id : BlockId) : (settle w id).IsForest roots := by
  unfold settle
  split
  · next b hb =>
    split
    · obtain ⟨hid, -⟩ := Array.getElem?_eq_some_iff.1 hb
      -- another form drops links or keeps them
      refine h.of_target?_imp (w.size_exchange id _) ?_
      intro j link t ht
      unfold target? at *
      rw [block?_exchange w _ hid] at ht
      split at ht
      · next heq =>
        rw [← heq, hb, Option.bind_some]
        exact reshape_target?_imp _ ht
      · exact ht
    · exact h
  · exact h

theorem size_settle (w : Workspace) (id : BlockId) : (settle w id).size = w.size := by
  unfold settle
  split
  · split
    · exact w.size_exchange id _
    · rfl
  · rfl

theorem block_target? (head : Head) (number : BlockId) (link : Link) :
    (head.block number).target? link = none := by
  cases link <;> rfl

theorem declare_blocks (w : Workspace) (name : String) : (w.declare name).blocks = w.blocks := by
  unfold declare
  split <;> rfl

theorem isForest_of_blocks_eq {w' : Workspace} (h : w.IsForest roots)
    (hblocks : w'.blocks = w.blocks) : w'.IsForest roots := by
  refine h.of_target?_imp (congrArg Array.size hblocks) ?_
  intro id link t ht
  unfold target? block? at *
  rwa [← hblocks]

/-! ## Content -/

theorem declare_if_blocks (w : Workspace) (declares : Bool) (text : String) :
    (if declares then w.declare text else w).blocks = w.blocks := by
  cases declares
  · rfl
  · exact declare_blocks w text

/-- Writing the text of a field keeps a forest. -/
theorem field_isForest (h : w.IsForest roots) (id : BlockId) (name text : String)
    (declares : Bool) :
    ((if declares then w.declare text else w).modify id fun b =>
      { b with fields := b.fields.put name text }).IsForest roots := by
  have hdeclare := isForest_of_blocks_eq h (declare_if_blocks w declares text)
  refine modify_isForest hdeclare id ?_
  intro b link
  cases link <;> rfl

theorem size_field (w : Workspace) (id : BlockId) (name text : String) (declares : Bool) :
    ((if declares then w.declare text else w).modify id fun b =>
      { b with fields := b.fields.put name text }).size = w.size := by
  rw [size_modify]
  exact congrArg Array.size (declare_if_blocks w declares text)

/-- The content of a block adds blocks and links to a forest and makes it no smaller. -/
theorem Content.place_isForest (content : Content) {id : Nat} (h : w.IsForest roots)
    (hid : id < w.size) :
    (content.place id w).IsForest roots ∧ w.size ≤ (content.place id w).size := by
  induction content generalizing w roots id with
  | done => exact ⟨h, Nat.le_refl _⟩
  | mutation attributes rest ih =>
    have hmutate := modify_isForest h id (mutate_target? attributes)
    have hsize := w.size_modify id (mutate attributes)
    obtain ⟨hrest, hle⟩ := ih hmutate (hsize.symm ▸ hid)
    exact ⟨hrest, hsize ▸ hle⟩
  | field name text declares rest ih =>
    have hfield := field_isForest h id name text declares
    have hsize := size_field w id name text declares
    obtain ⟨hrest, hle⟩ := ih hfield (hsize.symm ▸ hid)
    exact ⟨hrest, hsize ▸ hle⟩
  | link link head inner rest ihinner ihrest =>
    -- the new block is a root from where it is added until it is linked to
    have hadd := h.add (block_target? head w.size)
    have hgrow : w.size < (w.add (head.block w.size)).size := by
      rw [size_add]
      exact Nat.lt_succ_self _
    obtain ⟨hinner, hle⟩ := ihinner hadd hgrow
    have hlt := Nat.lt_of_lt_of_le hgrow hle
    have hconnect := connect_isForest link (settle_isForest hinner w.size) hid
    have hsize : (link.connect (settle (inner.place w.size (w.add (head.block w.size))) w.size) id
        w.size).size = (inner.place w.size (w.add (head.block w.size))).size :=
      (size_connect link _ id w.size).trans (size_settle _ w.size)
    obtain ⟨hrest, hle'⟩ := ihrest hconnect (hsize.symm ▸ Nat.lt_trans hid hlt)
    exact ⟨hrest, Nat.le_trans (Nat.le_of_lt hlt) (hsize ▸ hle')⟩

/-! ## Stacks on the canvas -/

theorem declare_top (w : Workspace) (name : String) : (w.declare name).top = w.top := by
  unfold declare
  split <;> rfl

theorem connect_top (link : Link) (w : Workspace) (parent child : BlockId) :
    (link.connect w parent child).top = w.top := by
  cases link <;> rfl

theorem settle_top (w : Workspace) (id : BlockId) : (settle w id).top = w.top := by
  unfold settle
  split
  · split <;> rfl
  · rfl

/-- What stands inside of a block heads no stack on the canvas. -/
theorem Content.place_top (content : Content) (id : BlockId) (w : Workspace) :
    (content.place id w).top = w.top := by
  induction content generalizing w id with
  | done => rfl
  | mutation attributes rest ih => exact ih id _
  | field name text declares rest ih =>
    refine (ih id _).trans ?_
    cases declares
    · rfl
    · exact declare_top w text
  | link link head inner rest ihinner ihrest =>
    refine (ihrest id _).trans ((connect_top link _ id _).trans ?_)
    exact (settle_top _ _).trans (ihinner w.nextId _)

theorem declare_isForest (names : List String) (h : w.IsForest w.top) :
    (names.foldl declare w).IsForest (names.foldl declare w).top := by
  induction names generalizing w with
  | nil => exact h
  | cons name names ih =>
    refine ih ?_
    rw [declare_top]
    exact isForest_of_blocks_eq h (declare_blocks w name)

/-- The heads of the stacks on the canvas are roots. -/
theorem Item.place_isForest (item : Item) (h : w.IsForest w.top) :
    (item.place w).IsForest (item.place w).top := by
  cases item with
  | declarations names => exact declare_isForest names h
  | stack head content =>
    have hperm : (w.size :: w.top).Perm (w.top ++ [w.size]) :=
      (List.perm_append_singleton w.size w.top).symm
    have hadd : (w.addTop (head.block w.size)).IsForest (w.top ++ [w.size]) :=
      isForest_of_blocks_eq ((h.add (block_target? head w.size)).perm hperm) rfl
    have hgrow : w.size < (w.addTop (head.block w.size)).size := by
      show w.size < (w.add (head.block w.size)).size
      rw [size_add]
      exact Nat.lt_succ_self _
    obtain ⟨hplace, -⟩ := content.place_isForest hadd hgrow
    have htop : (settle (content.place w.size (w.addTop (head.block w.size))) w.size).top =
        w.top ++ [w.size] := (settle_top _ _).trans (content.place_top _ _)
    exact htop.symm ▸ settle_isForest hplace w.size

theorem items_isForest (items : List Item) (h : w.IsForest w.top) :
    (items.foldl Item.place w).IsForest (items.foldl Item.place w).top := by
  induction items generalizing w with
  | nil => exact h
  | cons item items ih => exact ih (item.place_isForest h)

end Outline

/-! ## Documents -/

namespace Document

/-- The workspace of a document is built from the items that are read, one after the other. -/
theorem load_eq_items {parse : Markup.Parser} {source : String} {d : Document}
    (h : load parse source = .ok d) :
    ∃ nodes items, Outline.items? nodes = .ok items ∧
      d.workspace = items.foldl Outline.Item.place .empty := by
  unfold load at h
  split at h
  · next root _ =>
    unfold ofRoot at h
    split at h
    · cases h
    · cases hboard : rootBoard? root with
      | error e => rw [hboard] at h; cases h
      | ok board? =>
        cases hitems : Outline.items? root.children with
        | error e => rw [hboard, hitems] at h; cases h
        | ok items =>
          rw [hboard, hitems] at h
          cases h
          exact ⟨root.children, items, hitems, rfl⟩
  · cases h

/-- The workspace of every document is a forest, and the heads of the stacks on its canvas are
roots. -/
theorem load_isForest {parse : Markup.Parser} {source : String} {d : Document}
    (h : load parse source = .ok d) :
    d.workspace.IsForest d.workspace.top := by
  obtain ⟨-, items, -, hworkspace⟩ := load_eq_items h
  rw [hworkspace]
  exact Outline.items_isForest items IsForest.empty

end Document

end BlockCompiler
