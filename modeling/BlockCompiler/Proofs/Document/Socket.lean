import BlockCompiler.Proofs.Context
import BlockCompiler.Proofs.Document.Forest

set_option autoImplicit false

/-! # The sockets of a document's blocks

A property of single blocks holds of every block of a document if a new block has it and if nothing
that reading a document does to a block takes it away. One such property: no two sockets of a block
have the same name, since what is plugged in twice replaces what was there. -/

namespace BlockCompiler

open Workspace

/-- Every block has a property. -/
def Workspace.All (P : Block → Prop) (w : Workspace) : Prop := ∀ id b, w.block? id = some b → P b

/-- No two value sockets of a block have one name, and no two statement sockets. -/
structure Block.NamesOnce (b : Block) : Prop where
  values : b.values.keys.Nodup
  statements : b.statements.keys.Nodup

namespace Outline

/-- A property that a new block has and that reading a document never takes away. -/
structure Keeps (P : Block → Prop) : Prop where
  head : ∀ (head : Head) number, P (head.block number)
  hang : ∀ (link : Link) child {b : Block}, P b → P (link.hang child b)
  mutate : ∀ attributes {b : Block}, P b → P (mutate attributes b)
  field : ∀ name text {b : Block}, P b → P { b with fields := b.fields.put name text }
  reshape : ∀ (g : PinGroup) {b : Block}, P b → P (g.reshape b)

variable {w w' : Workspace} {P : Block → Prop}

theorem all_of_blocks_eq (h : w.All P) (hblocks : w'.blocks = w.blocks) : w'.All P := by
  intro id b hb
  refine h id b ?_
  unfold block? at *
  rwa [← hblocks]

theorem add_all (h : w.All P) {b : Block} (hb : P b) : (w.add b).All P := by
  intro id b' hb'
  rw [block?_add] at hb'
  split at hb'
  · exact Option.some_inj.1 hb' ▸ hb
  · exact h id b' hb'

theorem modify_all (h : w.All P) (id : BlockId) {change : Block → Block}
    (hchange : ∀ {b}, P b → P (change b)) : (w.modify id change).All P := by
  intro j b hb
  rw [block?_modify] at hb
  split at hb
  · obtain ⟨b', hb', rfl⟩ := Option.map_eq_some_iff.1 hb
    exact hchange (h j b' hb')
  · exact h j b hb

section Keeps

variable (hkeeps : Keeps P)

include hkeeps

theorem settle_all (h : w.All P) (id : BlockId) : (settle w id).All P := by
  unfold settle
  split
  · next b hb =>
    split
    · obtain ⟨hid, -⟩ := Array.getElem?_eq_some_iff.1 hb
      intro j b' hb'
      rw [block?_exchange w _ hid] at hb'
      split at hb'
      · exact Option.some_inj.1 hb' ▸ hkeeps.reshape _ (h id b hb)
      · exact h j b' hb'
    · exact h
  · exact h

theorem Content.place_all (content : Content) (id : BlockId) (h : w.All P) :
    (content.place id w).All P := by
  induction content generalizing w id with
  | done => exact h
  | mutation attributes rest ih => exact ih id (modify_all h id (hkeeps.mutate attributes))
  | field name text declares rest ih =>
    have hdeclare := all_of_blocks_eq h (declare_if_blocks w declares text)
    exact ih id (modify_all hdeclare id (hkeeps.field name text))
  | link link head inner rest ihinner ihrest =>
    have hadd := add_all h (hkeeps.head head w.nextId)
    have hinner := settle_all hkeeps (ihinner w.nextId hadd) w.nextId
    have hconnect := modify_all hinner id (hkeeps.hang link w.nextId)
    rw [← connect_eq_modify] at hconnect
    exact ihrest id hconnect

theorem Item.place_all (item : Item) (h : w.All P) : (item.place w).All P := by
  cases item with
  | declarations names =>
    show (names.foldl declare w).All P
    induction names generalizing w with
    | nil => exact h
    | cons name names ih => exact ih (all_of_blocks_eq h (declare_blocks w name))
  | stack head content =>
    have htop : (w.addTop (head.block w.nextId)).All P :=
      all_of_blocks_eq (add_all h (hkeeps.head head _)) rfl
    exact settle_all hkeeps (content.place_all hkeeps _ htop) _

theorem items_all (items : List Item) (h : w.All P) : (items.foldl Item.place w).All P := by
  induction items generalizing w with
  | nil => exact h
  | cons item items ih => exact ih (item.place_all hkeeps h)

end Keeps

theorem namesOnce_keeps : Keeps Block.NamesOnce where
  head _ _ := ⟨.nil, .nil⟩
  hang link _ _ h := by
    cases link with
    | value socket => exact ⟨Ledger.keys_nodup_put _ _ _ h.values, h.statements⟩
    | statement socket => exact ⟨h.values, Ledger.keys_nodup_put _ _ _ h.statements⟩
    | next => exact ⟨h.values, h.statements⟩
  mutate _ _ h := ⟨h.values, h.statements⟩
  field _ _ _ h := ⟨h.values, h.statements⟩
  reshape _ _ _ := ⟨.nil, .nil⟩

end Outline

/-- Every block of a document has a property that reading a document keeps. -/
theorem Document.load_all {parse : Markup.Parser} {source : String} {d : Document}
    (h : load parse source = .ok d) {P : Block → Prop} (hkeeps : Outline.Keeps P) : d.workspace.All P := by
  obtain ⟨-, items, -, hworkspace⟩ := load_eq_items h
  rw [hworkspace]
  exact Outline.items_all hkeeps items nofun

/-- The sockets of every block of a document have different names. -/
theorem Document.load_namesOnce {parse : Markup.Parser} {source : String} {d : Document}
    (h : load parse source = .ok d) :
    d.workspace.All Block.NamesOnce :=
  load_all h Outline.namesOnce_keeps

end BlockCompiler
