import BlockCompiler.Proofs.Context
import BlockCompiler.Proofs.Text.Literal
import BlockCompiler.Proofs.Workspace.Sorted

set_option autoImplicit false

/-! # Sockets in their order

The sockets of a block are ordered by stem and number. Numbered branches come in the order of their
numbers, as far as a mutation can count them; and what hangs in some sockets, taken in their order, is
met in this order among all that hangs on the block. -/

namespace BlockCompiler

/-! ## Numbered branches -/

/-- The sockets of numbered branches are told apart by their numbers. -/
theorem SocketKey.ofName_branch {n : Nat} (h : n ≤ Block.greatestCount) :
    ofName ("DO" ++ toString n) = ⟨"DO", n⟩ := by
  have hreverse : ("DO" ++ toString n).toList.reverse = (Nat.toDigits 10 n).reverse ++ ['O', 'D'] := by
    rw [String.toList_append, Nat.toString_eq_repr, Nat.toList_repr, List.reverse_append]
    rfl
  have hdigits : ∀ c ∈ (Nat.toDigits 10 n).reverse, c.isDigit = true := fun c hc =>
    Text.isDigit_of_mem_toDigits (List.mem_reverse.1 hc)
  unfold ofName
  have hend : ['O', 'D'].takeWhile Char.isDigit = [] := rfl
  simp only [hreverse, List.takeWhile_append_of_pos hdigits, List.dropWhile_append_of_pos hdigits,
    hend, List.append_nil, List.reverse_reverse, Text.unsigned?_toDigits h]
  rfl

/-! ## Sockets in a row -/

/-- Elements in strictly ascending order are met in this order in a sorted list that has them all. -/
theorem sublist_of_subset_of_ascending {α κ : Type} [LinearOrder κ] {key : α → κ} {as bs : List α}
    (has : as.Pairwise fun a b => key a < key b) (hbs : bs.Pairwise fun a b => key a ≤ key b)
    (hsub : as ⊆ bs) : as.Sublist bs := by
  induction bs generalizing as with
  | nil => rw [List.subset_nil.1 hsub]
  | cons b bs ih =>
    obtain ⟨hb, hbs'⟩ := List.pairwise_cons.1 hbs
    cases as with
    | nil => exact List.nil_sublist _
    | cons a as =>
      obtain ⟨ha, has'⟩ := List.pairwise_cons.1 has
      have hlater : ∀ {c}, key b < key c → c ∈ b :: bs → c ∈ bs := fun hlt hc =>
        (List.mem_cons.1 hc).resolve_left fun heq => lt_irrefl _ (heq ▸ hlt)
      rcases List.mem_cons.1 (hsub List.mem_cons_self) with rfl | hmem
      · refine (ih has' hbs' fun c hc => ?_).cons_cons a
        exact hlater (ha c hc) (hsub (List.mem_cons_of_mem _ hc))
      · refine (ih has hbs' fun c hc => ?_).cons b
        rcases List.mem_cons.1 hc with rfl | hc
        · exact hmem
        · exact hlater ((hb a hmem).trans_lt (ha c hc)) (hsub (List.mem_cons_of_mem _ hc))

/-- What hangs in some sockets, taken in the order of sockets, is in this order in all of them. -/
theorem filterMap_sublist_inSocketOrder {names : List String} {sockets : Ledger BlockId}
    (hnames : names.Pairwise fun s s' =>
      (SocketKey.ofName s).sortKey < (SocketKey.ofName s').sortKey)
    (hsockets : sockets.keys.Nodup) :
    (names.filterMap sockets.get?).Sublist (inSocketOrder sockets) := by
  let key : String × BlockId → String ×ₗ Nat := fun entry => (SocketKey.ofName entry.1).sortKey
  have hcompare : ComparesBy key
      (fun a b => (SocketKey.ofName a.1).comesBefore (SocketKey.ofName b.1)) sockets.entries :=
    fun _ _ _ _ => SocketKey.comesBefore_eq _ _
  let found? : String → Option (String × BlockId) := fun s => (sockets.get? s).map (s, ·)
  have hfound : ∀ {s entry}, found? s = some entry → entry.1 = s ∧ entry ∈ sockets.entries := by
    intro s entry hs
    obtain ⟨id, hid, rfl⟩ := Option.map_eq_some_iff.1 hs
    exact ⟨rfl, (Ledger.get?_eq_some_iff hsockets).1 hid⟩
  have hascends : (names.filterMap found?).Pairwise fun a b => key a < key b := by
    refine List.pairwise_filterMap.2 (hnames.imp fun {s s'} hlt entry he entry' he' => ?_)
    show (SocketKey.ofName entry.1).sortKey < (SocketKey.ofName entry'.1).sortKey
    rw [(hfound he).1, (hfound he').1]
    exact hlt
  have hsub := sublist_of_subset_of_ascending hascends (sortStable_pairwise hcompare) <| by
    intro entry hmem
    obtain ⟨s, -, hs⟩ := List.mem_filterMap.1 hmem
    exact (sortStable_perm _ _).mem_iff.2 (hfound hs).2
  have hmap := hsub.map Prod.snd
  rw [List.map_filterMap] at hmap
  unfold inSocketOrder
  simpa [found?, Function.comp_def] using hmap

end BlockCompiler
