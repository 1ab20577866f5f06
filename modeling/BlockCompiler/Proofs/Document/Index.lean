import BlockCompiler.Proofs.Document.Forest

set_option autoImplicit false

/-! # The index of a document

Questions about the blocks of a type are answered from the index of the workspace. Reading a document
adds every block to it, and a block that is brought into another form only moves to its end. So no
question misses a block of a document. -/

namespace BlockCompiler

open Workspace

/-- Every block is in the index. -/
def Workspace.Indexed (w : Workspace) : Prop := ∀ id : Nat, id < w.size → id ∈ w.index

/-- A type has a block if an enabled block is of that type. -/
theorem Workspace.Indexed.containsType {w : Workspace} (h : w.Indexed) {id : BlockId} {b : Block}
    (hb : w.block? id = some b) (henabled : b.disabled = false) : w.containsType b.type = true := by
  obtain ⟨hid, -⟩ := Array.getElem?_eq_some_iff.1 hb
  have hmem : id ∈ w.ofType b.type := by
    refine List.mem_filter.2 ⟨h id hid, ?_⟩
    rw [isEnabled, hb]
    simp [henabled]
  unfold Workspace.containsType
  rw [List.isEmpty_eq_false_iff.2 (List.ne_nil_of_mem hmem)]
  rfl

namespace Outline

variable {w : Workspace}

theorem modify_indexed (h : w.Indexed) (id : BlockId) (change : Block → Block) :
    (w.modify id change).Indexed := by
  intro j hj
  rw [size_modify] at hj
  exact h j hj

theorem connect_indexed (h : w.Indexed) (link : Link) (parent child : BlockId) :
    (link.connect w parent child).Indexed := by
  rw [connect_eq_modify]
  exact modify_indexed h parent _

theorem declare_indexed (h : w.Indexed) (name : String) : (w.declare name).Indexed := by
  unfold declare
  split
  · exact h
  · exact h

theorem add_indexed (h : w.Indexed) (b : Block) : (w.add b).Indexed := by
  intro j hj
  rw [size_add] at hj
  rcases Nat.lt_succ_iff_lt_or_eq.1 hj with hj | rfl
  · exact List.mem_append_left _ (h j hj)
  · exact List.mem_append_right _ List.mem_cons_self

/-- A block that gets another form goes to the end of the index. -/
theorem settle_indexed (h : w.Indexed) (id : BlockId) : (settle w id).Indexed := by
  unfold settle
  split
  · split
    · intro j hj
      rw [size_exchange] at hj
      by_cases heq : j = id
      · exact List.mem_append_right _ (List.mem_singleton.2 heq)
      · exact List.mem_append_left _ (List.mem_filter.2 ⟨h j hj, bne_iff_ne.2 heq⟩)
    · exact h
  · exact h

theorem Content.place_indexed (content : Content) (id : BlockId) (h : w.Indexed) :
    (content.place id w).Indexed := by
  induction content generalizing w id with
  | done => exact h
  | mutation attributes rest ih => exact ih id (modify_indexed h id _)
  | field name text declares rest ih =>
    refine ih id (modify_indexed ?_ id _)
    cases declares
    · exact h
    · exact declare_indexed h text
  | link link head inner rest ihinner ihrest =>
    refine ihrest id (connect_indexed ?_ link id _)
    exact settle_indexed (ihinner _ (add_indexed h _)) _

theorem Item.place_indexed (item : Item) (h : w.Indexed) : (item.place w).Indexed := by
  cases item with
  | declarations names =>
    show (names.foldl declare w).Indexed
    induction names generalizing w with
    | nil => exact h
    | cons name names ih => exact ih (declare_indexed h name)
  | stack head content =>
    have htop : (w.addTop (head.block w.nextId)).Indexed := add_indexed h _
    exact settle_indexed (content.place_indexed _ htop) _

theorem items_indexed (items : List Item) (h : w.Indexed) : (items.foldl Item.place w).Indexed := by
  induction items generalizing w with
  | nil => exact h
  | cons item items ih => exact ih (item.place_indexed h)

end Outline

/-- Every block of a document is in the index. -/
theorem Document.load_indexed {parse : Markup.Parser} {source : String} {d : Document}
    (h : load parse source = .ok d) :
    d.workspace.Indexed := by
  obtain ⟨-, items, -, hworkspace⟩ := load_eq_items h
  rw [hworkspace]
  exact Outline.items_indexed items nofun

end BlockCompiler
