import BlockCompiler.Proofs.Workspace.Order
import Mathlib.Data.Int.ConditionallyCompleteOrder
import Mathlib.Data.List.Nodup
import Mathlib.Data.Prod.Lex
import Mathlib.Data.String.Basic
import Mathlib.Order.ConditionallyCompleteLattice.Basic
import Mathlib.Order.WithBot

set_option autoImplicit false

/-! # Sorting by keys

The canvas order and the order of sockets compare keys in a linear order. A list sorted by such a
comparison is ascending, and where no two keys are equal it does not depend on the order that the
list had before. -/

namespace BlockCompiler

/-! ## Sorting -/

section Sorting

variable {α β κ : Type} {before : α → α → Bool} {before' : β → β → Bool}

theorem insertSorted_map (f : α → β) {a : α} {as : List α}
    (h : ∀ b ∈ as, before' (f b) (f a) = before b a) :
    insertSorted before' (f a) (as.map f) = (insertSorted before a as).map f := by
  induction as with
  | nil => rfl
  | cons b bs ih =>
    rw [List.map_cons]
    unfold insertSorted
    rw [h b List.mem_cons_self]
    split
    · rw [ih fun c hc => h c (List.mem_cons_of_mem _ hc), List.map_cons]
    · rfl

/-- Sorting the images is sorting, if the images compare as the elements do. -/
theorem sortStable_map (f : α → β) {as : List α}
    (h : ∀ a ∈ as, ∀ b ∈ as, before' (f a) (f b) = before a b) :
    sortStable before' (as.map f) = (sortStable before as).map f := by
  induction as with
  | nil => rfl
  | cons a as ih =>
    have htail : ∀ b ∈ as, ∀ c ∈ as, before' (f b) (f c) = before b c := fun b hb c hc =>
      h b (List.mem_cons_of_mem _ hb) c (List.mem_cons_of_mem _ hc)
    rw [List.map_cons, sortStable, sortStable, ih htail]
    refine insertSorted_map f fun b hb => h b ?_ a List.mem_cons_self
    exact List.mem_cons_of_mem _ ((sortStable_perm before as).mem_iff.1 hb)

variable [LinearOrder κ]

/-- A test compares the elements of a list by their keys. -/
def ComparesBy (key : α → κ) (before : α → α → Bool) (as : List α) : Prop :=
  ∀ a ∈ as, ∀ b ∈ as, before a b = decide (key a < key b)

variable {key : α → κ} {as bs : List α}

theorem ComparesBy.subset (h : ComparesBy key before as) (hsub : bs ⊆ as) :
    ComparesBy key before bs :=
  fun a ha b hb => h a (hsub ha) b (hsub hb)

theorem insertSorted_pairwise {a : α} (h : ComparesBy key before (a :: as))
    (has : as.Pairwise fun b c => key b ≤ key c) :
    (insertSorted before a as).Pairwise fun b c => key b ≤ key c := by
  induction as with
  | nil => exact List.pairwise_singleton _ _
  | cons b bs ih =>
    obtain ⟨hb, hbs⟩ := List.pairwise_cons.1 has
    have hcompare : before b a = decide (key b < key a) :=
      h b (List.mem_cons_of_mem _ List.mem_cons_self) a List.mem_cons_self
    unfold insertSorted
    rw [hcompare]
    split
    · next hlt =>
      have hsub : a :: bs ⊆ a :: b :: bs :=
        List.cons_subset_cons _ (List.subset_cons_self b bs)
      refine List.pairwise_cons.2 ⟨fun c hc => ?_, ih (h.subset hsub) hbs⟩
      rcases List.mem_cons.1 ((insertSorted_perm before a bs).mem_iff.1 hc) with rfl | hc
      · exact le_of_lt (of_decide_eq_true hlt)
      · exact hb c hc
    · next hge =>
      have hab : key a ≤ key b := not_lt.1 fun hlt => hge (decide_eq_true hlt)
      refine List.pairwise_cons.2 ⟨fun c hc => ?_, has⟩
      rcases List.mem_cons.1 hc with rfl | hc
      · exact hab
      · exact hab.trans (hb c hc)

/-- Sorting puts the keys in ascending order. -/
theorem sortStable_pairwise (h : ComparesBy key before as) :
    (sortStable before as).Pairwise fun a b => key a ≤ key b := by
  induction as with
  | nil => exact .nil
  | cons a as ih =>
    have hsub : a :: sortStable before as ⊆ a :: as :=
      List.cons_subset_cons _ (sortStable_perm before as).subset
    exact insertSorted_pairwise (h.subset hsub) (ih (h.subset (List.subset_cons_self a as)))

/-- Where no two keys are equal, sorting forgets the order that the list had. -/
theorem sortStable_eq_of_perm (h : ComparesBy key before as) (hkeys : (as.map key).Nodup)
    (hperm : bs.Perm as) : sortStable before bs = sortStable before as := by
  have hbs := sortStable_perm before bs
  have has := sortStable_perm before as
  refine List.Perm.eq_of_pairwise (fun a b ha hb hab hba => ?_)
    (sortStable_pairwise (h.subset hperm.subset)) (sortStable_pairwise h)
    (hbs.trans (hperm.trans has.symm))
  exact List.inj_on_of_nodup_map hkeys (hperm.subset (hbs.subset ha)) (has.subset hb)
    (le_antisymm hab hba)

/-- Where no two keys are equal, sorting the images, in whatever order they come, is sorting. -/
theorem sortStable_eq_map {f : α → β} {bs : List β} (h : ComparesBy key before as)
    (hkeys : (as.map key).Nodup) {key' : β → κ} (h' : ComparesBy key' before' (as.map f))
    (hkey : ∀ a ∈ as, key' (f a) = key a) (hperm : bs.Perm (as.map f)) :
    sortStable before' bs = (sortStable before as).map f := by
  have hkeys' : ((as.map f).map key').Nodup := by
    have hmap : as.map (key' ∘ f) = as.map key := List.map_congr_left hkey
    rwa [List.map_map, hmap]
  rw [sortStable_eq_of_perm h' hkeys' hperm]
  refine sortStable_map f fun a ha b hb => ?_
  rw [h' _ (List.mem_map_of_mem ha) _ (List.mem_map_of_mem hb), hkey a ha, hkey b hb, h a ha b hb]

end Sorting

/-! ## Canvas order -/

/-- What the canvas order compares: from top to bottom, from left to right, by name. -/
def Block.canvasKey (b : Block) : Int ×ₗ Int ×ₗ String := toLex (b.y, toLex (b.x, b.id))

theorem Block.comesBefore_eq (a b : Block) :
    a.comesBefore b = decide (a.canvasKey < b.canvasKey) := by
  rw [Bool.eq_iff_iff, decide_eq_true_iff, canvasKey, canvasKey, Prod.Lex.toLex_lt_toLex,
    Prod.Lex.toLex_lt_toLex]
  simp only [comesBefore, Bool.or_eq_true, Bool.and_eq_true, decide_eq_true_iff, beq_iff_eq]

namespace Workspace

variable {w : Workspace}

/-- The canvas key of the block of a number; a number without a block comes first. -/
def canvasKey (w : Workspace) (id : BlockId) : WithBot (Int ×ₗ Int ×ₗ String) :=
  (w.block? id).map Block.canvasKey

theorem isAbove_comparesBy {ids : List BlockId} (h : ∀ id ∈ ids, id < w.size) :
    ComparesBy w.canvasKey w.isAbove ids := by
  intro a ha b hb
  obtain ⟨block, hblock⟩ : ∃ block, w.block? a = some block :=
    ⟨_, Array.getElem?_eq_getElem (h a ha)⟩
  obtain ⟨block', hblock'⟩ : ∃ block, w.block? b = some block :=
    ⟨_, Array.getElem?_eq_getElem (h b hb)⟩
  have hlt : w.canvasKey a < w.canvasKey b ↔ block.canvasKey < block'.canvasKey := by
    rw [canvasKey, canvasKey, hblock, hblock']
    exact WithBot.coe_lt_coe
  simp only [isAbove, hblock, hblock', Block.comesBefore_eq, hlt]

/-- The stacks stand in canvas order. -/
theorem topBlocks_pairwise (h : ∀ id ∈ w.top, id < w.size) :
    w.topBlocks.Pairwise fun a b => w.canvasKey a ≤ w.canvasKey b :=
  sortStable_pairwise (isAbove_comparesBy h)

end Workspace

/-! ## Sockets -/

/-- What the order of sockets compares. -/
def SocketKey.sortKey (k : SocketKey) : String ×ₗ Nat := toLex (k.stem, k.number)

theorem SocketKey.comesBefore_eq (a b : SocketKey) :
    a.comesBefore b = decide (a.sortKey < b.sortKey) := by
  rw [Bool.eq_iff_iff, decide_eq_true_iff, sortKey, sortKey, Prod.Lex.toLex_lt_toLex]
  simp only [comesBefore, Bool.or_eq_true, Bool.and_eq_true, decide_eq_true_iff, beq_iff_eq]

theorem SocketKey.sortKey_injective : Function.Injective sortKey := by
  rintro ⟨stem, number⟩ ⟨stem', number'⟩ h
  obtain ⟨rfl, rfl⟩ := Prod.mk.inj (toLex.injective h)
  rfl

end BlockCompiler
