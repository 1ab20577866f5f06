import BlockCompiler.Proofs.Document.Reading

set_option autoImplicit false

/-! # The numbers of a document's blocks

A document is read exactly if its root is one, the board that it names is known and nothing that is
met in it is at fault. Its workspace then has one block for every block that is met, and numbers
them in the order in which they are met.

Placing the content of a block changes no earlier block but that one, and adds the blocks that stand
inside. Each of those is finished before it is linked to, and never changed again. What is plugged
into a block has no part in what the block itself says, so links are left out. -/

namespace BlockCompiler

open Workspace

/-- The block with nothing plugged into it and nothing below it. -/
def Block.unlinked (b : Block) : Block := { b with values := {}, statements := {}, next := none }

/-- The block in the form in which a document leaves it: one that writes a run of pins has the form
that its fields describe. -/
def Block.finished (b : Block) : Block :=
  if b.type == Kind.setPins.name then (PinGroup.ofBlock b).reshape b else b

namespace Block

theorem finished_type (b : Block) : b.finished.type = b.type := by
  unfold finished
  split
  · next h => exact (eq_of_beq h).symm
  · rfl

theorem finished_id (b : Block) : b.finished.id = b.id := by
  unfold finished
  split <;> rfl

theorem finished_disabled (b : Block) : b.finished.disabled = b.disabled := by
  unfold finished
  split <;> rfl

/-- The form of a block has nothing to do with what is plugged into it. -/
theorem finished_unlinked (b : Block) : b.finished.unlinked = b.unlinked.finished := by
  unfold finished
  show _ = if b.type == Kind.setPins.name then _ else _
  split <;> rfl

end Block

namespace Outline

open Markup

variable {w w' w'' : Workspace}

/-! ## Growing -/

theorem hang_unlinked (link : Link) (child : BlockId) (b : Block) :
    (link.hang child b).unlinked = b.unlinked := by
  cases link <;> rfl

/-- The block of a number is the finished one of an outline. -/
def Holds (w : Workspace) (id : BlockId) (entry : Head × Content) : Prop :=
  ∃ b : Block, w.block? id = some b.finished ∧ b.unlinked = entry.2.fill (entry.1.block id)

/-- A workspace has got the finished blocks of outlines, and no other block has changed but the one
that is still open. -/
structure Grows (w w' : Workspace) (opened : Option BlockId) (entries : List (Head × Content)) :
    Prop where
  size : w'.size = w.size + entries.length
  old : ∀ id < w.size, opened ≠ some id → w'.block? id = w.block? id
  new : ∀ k entry, entries[k]? = some entry → Holds w' (w.size + k) entry

namespace Grows

theorem of_modify (w : Workspace) (id : BlockId) (change : Block → Block) :
    Grows w (w.modify id change) (some id) [] where
  size := w.size_modify id change
  old j _ hj := by rw [block?_modify, if_neg fun h => hj (congrArg some h)]
  new _ _ := nofun

theorem of_connect (link : Link) (w : Workspace) (parent child : BlockId) :
    Grows w (link.connect w parent child) (some parent) [] := by
  rw [connect_eq_modify]
  exact of_modify w parent _

theorem of_blocks_eq (h : w'.blocks = w.blocks) (opened : Option BlockId) :
    Grows w w' opened [] where
  size := congrArg Array.size h
  old id _ _ := by rw [block?, block?, h]
  new _ _ := nofun

theorem opening {entries : List (Head × Content)} (h : Grows w w' none entries)
    (opened : Option BlockId) : Grows w w' opened entries where
  size := h.size
  old id hid _ := h.old id hid nofun
  new := h.new

/-- Blocks that were added before are not changed by what is added later. -/
theorem trans {opened : Option BlockId} {entries entries' : List (Head × Content)}
    (h : Grows w w' opened entries) (h' : Grows w' w'' opened entries')
    (hopened : ∀ id, opened = some id → id < w.size) :
    Grows w w'' opened (entries ++ entries') where
  size := by rw [h'.size, h.size, List.length_append, Nat.add_assoc]
  old id hid hne :=
    (h'.old id (h.size ▸ Nat.lt_add_right _ hid) hne).trans (h.old id hid hne)
  new k entry hentry := by
    by_cases hk : k < entries.length
    · rw [List.getElem?_append_left hk] at hentry
      obtain ⟨b, hb, hsays⟩ := h.new k entry hentry
      refine ⟨b, (h'.old _ ?_ ?_).trans hb, hsays⟩
      · rw [h.size]
        exact Nat.add_lt_add_left hk _
      · exact fun heq => absurd (hopened _ heq) (Nat.not_lt.2 (Nat.le_add_right ..))
    · obtain ⟨j, rfl⟩ := Nat.exists_eq_add_of_le (Nat.not_lt.1 hk)
      rw [List.getElem?_append_right (Nat.le_add_right ..), Nat.add_sub_cancel_left] at hentry
      have hnew := h'.new j entry hentry
      rwa [h.size, Nat.add_assoc] at hnew

end Grows

/-- Finishing a block changes no other. -/
theorem block?_settle {b : Block} {id : BlockId} (h : w.block? id = some b) (j : BlockId) :
    (settle w id).block? j = if id = j then some b.finished else w.block? j := by
  obtain ⟨hid, -⟩ := Array.getElem?_eq_some_iff.1 h
  unfold settle Block.finished
  rw [h]
  dsimp only
  split
  · exact block?_exchange w _ hid j
  · split
    · next heq => rw [← heq, h]
    · rfl

/-- A block is added, its content is placed, and it is finished. -/
theorem Grows.stack {start w' : Workspace} {head : Head} {content : Content}
    (hsize : start.size = w.size + 1)
    (hstart : ∀ id, start.block? id = if id = w.size then some (head.block w.size) else w.block? id)
    (hgrows : Grows start w' (some w.size) content.blocks)
    (hown : ∃ b, w'.block? w.size = some b ∧ b.unlinked = content.fill (head.block w.size)) :
    Grows w (settle w' w.size) none ((head, content) :: content.blocks) := by
  obtain ⟨b, hb, hsays⟩ := hown
  refine ⟨?_, ?_, ?_⟩
  · rw [size_settle, hgrows.size, hsize, List.length_cons, Nat.add_assoc, Nat.add_comm 1]
  · intro id hid _
    have hne : w.size ≠ id := (Nat.ne_of_lt hid).symm
    rw [block?_settle hb, if_neg hne, hgrows.old id (hsize ▸ Nat.lt_succ_of_lt hid)
      fun h => hne (Option.some_inj.1 h), hstart, if_neg hne.symm]
  · intro k entry hentry
    cases k with
    | zero =>
      cases hentry
      exact ⟨b, (block?_settle hb w.size).trans (if_pos rfl), hsays⟩
    | succ k =>
      obtain ⟨inner, hinner, hinnerSays⟩ := hgrows.new k entry hentry
      rw [hsize, Nat.add_assoc, Nat.add_comm 1] at hinner hinnerSays
      refine ⟨inner, ?_, hinnerSays⟩
      rw [block?_settle hb, if_neg (Nat.ne_of_lt (Nat.lt_add_of_pos_right k.succ_pos)), hinner]

theorem block?_modify_self {id : BlockId} {b : Block} (h : w.block? id = some b)
    (change : Block → Block) : (w.modify id change).block? id = some (change b) := by
  rw [block?_modify, if_pos rfl, h, Option.map_some]

theorem lt_of_block? {id : Nat} {b : Block} (h : w.block? id = some b) :
    ∀ j, some id = some j → j < w.size := by
  rintro j ⟨⟩
  exact (Array.getElem?_eq_some_iff.1 h).1

/-- Placing content adds its blocks, and makes its own block say what the content says. -/
theorem Content.place_grows (content : Content) {id : BlockId} {b : Block}
    (hb : w.block? id = some b) :
    Grows w (content.place id w) (some id) content.blocks ∧
      ∃ b', (content.place id w).block? id = some b' ∧ b'.unlinked = content.fill b.unlinked := by
  induction content generalizing w id b with
  | done => exact ⟨.of_blocks_eq rfl _, b, hb, rfl⟩
  | mutation attributes rest ih =>
    obtain ⟨hrest, hown⟩ := ih (block?_modify_self hb (mutate attributes))
    exact ⟨(Grows.of_modify w id _).trans hrest (lt_of_block? hb), hown⟩
  | field name text declares rest ih =>
    have hblocks := declare_if_blocks w declares text
    have hdeclared : (if declares then w.declare text else w).block? id = some b := by
      rw [block?, hblocks]
      exact hb
    obtain ⟨hrest, hown⟩ := ih (block?_modify_self hdeclared _)
    have hgrows := (Grows.of_modify _ id _).trans hrest (lt_of_block? hdeclared)
    exact ⟨(Grows.of_blocks_eq hblocks _).trans hgrows (lt_of_block? hb), hown⟩
  | link link head inner rest ihinner ihrest =>
    -- the block inside is finished before it is linked to
    have hadded : (w.add (head.block w.size)).block? w.size = some (head.block w.size) := by
      rw [block?_add, if_pos rfl]
    obtain ⟨hinner, hinnerOwn⟩ := ihinner hadded
    have hstack := Grows.stack (w.size_add _) (w.block?_add _) hinner hinnerOwn
    have hunlinked := (hstack.old id (lt_of_block? hb id rfl) nofun).trans hb
    obtain ⟨hrest, hown⟩ := ihrest (block?_modify_self hunlinked (link.hang w.size))
    rw [← connect_eq_modify] at hrest hown
    rw [hang_unlinked] at hown
    have hgrows := (Grows.of_connect link _ id w.size).trans hrest (lt_of_block? hunlinked)
    exact ⟨(hstack.opening (some id)).trans hgrows (lt_of_block? hb), hown⟩

theorem declarations_blocks (names : List String) (w : Workspace) :
    (names.foldl declare w).blocks = w.blocks := by
  induction names generalizing w with
  | nil => rfl
  | cons name names ih => exact (ih _).trans (declare_blocks w name)

theorem Item.place_grows (item : Item) (w : Workspace) :
    Grows w (item.place w) none item.blocks := by
  cases item with
  | declarations names => exact .of_blocks_eq (declarations_blocks names w) none
  | stack head content =>
    have hsize : (w.addTop (head.block w.size)).size = w.size + 1 := w.size_add _
    have hblock : ∀ id, (w.addTop (head.block w.size)).block? id =
      if id = w.size then some (head.block w.size) else w.block? id := w.block?_add _
    obtain ⟨hcontent, hown⟩ := content.place_grows ((hblock w.size).trans (if_pos rfl))
    exact .stack hsize hblock hcontent hown

theorem items_grow (items : List Item) (w : Workspace) :
    Grows w (items.foldl Item.place w) none (items.flatMap Item.blocks) := by
  induction items generalizing w with
  | nil => exact .of_blocks_eq rfl none
  | cons item items ih => exact (item.place_grows w).trans (ih _) nofun

end Outline

/-! ## Documents -/

namespace Markup.Element

/-- The root names no board or a known one. -/
def HasKnownBoard (root : Element) : Prop :=
  ∀ text, root.attributes.get? "board" = some text → ∃ board, Board.ofText text = .ok board

end Markup.Element

namespace Document

open Markup Outline

theorem rootBoard?_ok_iff (root : Element) :
    (∃ board?, rootBoard? root = .ok board?) ↔ root.HasKnownBoard := by
  unfold rootBoard? Element.HasKnownBoard
  cases root.attributes.get? "board" with
  | none => simp
  | some text => cases h : Board.ofText text <;> simp [h]

/-- Past its name and its board, a document is read like its items. -/
theorem ofRoot_eq {root : Element} {board? : Option Board} (hname : root.name = "xml")
    (hboard : rootBoard? root = .ok board?) : ofRoot root = do
      let items ← items? root.children
      return { workspace := items.foldl Item.place .empty, board? } := by
  unfold ofRoot
  rw [hname, hboard]
  rfl

/-- Past its name and its board, a document fails with the first fault of what is met. -/
theorem of?_ofRoot {root : Element} (hname : root.name = "xml") (hboard : root.HasKnownBoard) :
    LoadError.of? (ofRoot root) = root.met.findSome? Met.fault? := by
  obtain ⟨board?, hboard⟩ := (rootBoard?_ok_iff root).2 hboard
  rw [ofRoot_eq hname hboard, LoadError.of?_bind_pure]
  exact of?_items? root.children

theorem name_and_board_of_ofRoot {root : Element} {d : Document} (h : ofRoot root = .ok d) :
    root.name = "xml" ∧ root.HasKnownBoard := by
  unfold ofRoot at h
  by_cases hname : root.name = "xml"
  · rw [hname] at h
    obtain ⟨board?, hboard, -⟩ := exists_of_bind_ok h
    exact ⟨hname, (rootBoard?_ok_iff root).1 ⟨board?, hboard⟩⟩
  · rw [if_pos (bne_iff_ne.2 hname)] at h
    cases h

/-- The block of every number is what the element met at that place writes down. -/
theorem blocks_of_ofRoot {root : Element} {d : Document} (h : ofRoot root = .ok d) :
    d.workspace.size = root.blocks.length ∧ ∀ (n : Nat) e, root.blocks[n]? = some e →
      e.HasType ∧ ∃ b : Block, d.workspace.block? n = some b.finished ∧
        b.unlinked = e.written n := by
  obtain ⟨hname, hboard⟩ := name_and_board_of_ofRoot h
  obtain ⟨board?, hboard⟩ := (rootBoard?_ok_iff root).2 hboard
  rw [ofRoot_eq hname hboard] at h
  obtain ⟨items, hitems, h⟩ := exists_of_bind_ok h
  cases h
  have hreads : List.Forall₂ Reads root.blocks (items.flatMap Item.blocks) :=
    items?_blocks root.children hitems
  have hgrows := items_grow items .empty
  have hempty : Workspace.empty.size = 0 := rfl
  refine ⟨?_, ?_⟩
  · rw [hgrows.size, hreads.length_eq, hempty, Nat.zero_add]
  · intro n e he
    obtain ⟨hn, rfl⟩ := List.getElem?_eq_some_iff.1 he
    have hn' : n < (items.flatMap Item.blocks).length := hreads.length_eq ▸ hn
    have hread : Reads root.blocks[n] (items.flatMap Item.blocks)[n] := hreads.get hn hn'
    obtain ⟨b, hb, hsays⟩ := hgrows.new n _ (List.getElem?_eq_getElem hn')
    rw [hempty, Nat.zero_add] at hb hsays
    refine ⟨(fault?_block _).1 ?_, b, hb, hsays.trans (fill_of_reads hread n)⟩
    exact (of?_head? _).symm.trans (LoadError.of?_eq_none_iff.2 ⟨_, hread.1⟩)

/-- A document is read exactly if its root and its board are right, every block that is met has a
type, and all parts of those blocks have names. It then has one block for every block that is met,
in that order, of the type, with the name and with the flag that the element gives it. Otherwise the
first thing that is met and at fault tells what is wrong. -/
theorem reads_in_order (root : Element) :
    ((∃ d, ofRoot root = .ok d) ↔ root.name = "xml" ∧ root.HasKnownBoard ∧
      ∀ e ∈ root.blocks, e.HasType ∧ ∀ p ∈ e.parts, p.HasName) ∧
    (∀ d, ofRoot root = .ok d → d.workspace.size = root.blocks.length ∧
      ∀ (n : Nat) e, root.blocks[n]? = some e → ∃ b : Block,
        d.workspace.block? n = some b.finished ∧ b.unlinked = e.written n ∧
        e.attributes.get? "type" = some b.finished.type ∧
        b.finished.id =
          (e.attributes.get? "id").getD (b.finished.type ++ "#" ++ toString n) ∧
        b.finished.disabled =
          (e.attributes.get? "disabled").any fun text => Text.equalIgnoringCase text "true") ∧
    (root.name = "xml" → root.HasKnownBoard → ∀ fault,
      ofRoot root = .error fault ↔ root.met.findSome? Met.fault? = some fault) ∧
    ∀ (parse : Markup.Parser) (source : String),
      parse (String.ofList (source.toList.dropWhile (· == byteOrderMark))) = some root →
        load parse source = ofRoot root := by
  refine ⟨⟨?_, ?_⟩, ?_, ?_, ?_⟩
  · rintro ⟨d, h⟩
    obtain ⟨hname, hboard⟩ := name_and_board_of_ofRoot h
    refine ⟨hname, hboard, (met_faultless_iff root).1 ?_⟩
    rw [← List.findSome?_eq_none_iff, ← of?_ofRoot hname hboard]
    exact LoadError.of?_eq_none_iff.2 ⟨d, h⟩
  · rintro ⟨hname, hboard, hblocks⟩
    rw [← LoadError.of?_eq_none_iff, of?_ofRoot hname hboard, List.findSome?_eq_none_iff]
    exact (met_faultless_iff root).2 hblocks
  · intro d h
    obtain ⟨hsize, hblocks⟩ := blocks_of_ofRoot h
    refine ⟨hsize, ?_⟩
    intro n e he
    obtain ⟨⟨type, htype, -⟩, b, hb, hsays⟩ := hblocks n e he
    have hwritten : b.type = type := by
      rw [show b.type = b.unlinked.type from rfl, hsays, Element.written, htype, Option.getD_some]
    refine ⟨b, hb, hsays, ?_, ?_, ?_⟩
    · rw [b.finished_type, htype, hwritten]
    · rw [b.finished_id, b.finished_type, hwritten, show b.id = b.unlinked.id from rfl, hsays,
        Element.written, htype, Option.getD_some]
    · rw [b.finished_disabled, show b.disabled = b.unlinked.disabled from rfl, hsays]
      rfl
  · intro hname hboard fault
    rw [← of?_ofRoot hname hboard, LoadError.of?_eq_some_iff]
  · intro parse source h
    rw [load, h]

/-- A number that has no name. -/
def number : Element :=
  ⟨"block", ⟨[("type", "math_number")]⟩, [.element "field" ⟨[("name", "NUM")]⟩ [.text "7"]]⟩

/-- A shadow that writes two pins. -/
def run : Element :=
  ⟨"shadow", ⟨[("type", "set_pins"), ("id", "s")]⟩,
    [.element "field" ⟨[("name", "END_PIN")]⟩ [.text "1"]]⟩

/-- A pause; the number in its socket hides a shadow that has no type. -/
def pause : Element :=
  ⟨"block", ⟨[("type", "pause"), ("id", "p"), ("disabled", "TRUE")]⟩,
    [.element "value" ⟨[("name", "PAUSE_TIME")]⟩ [.element "shadow" {} [], number.node],
      .text "\n", .element "next" {} [run.node]]⟩

/-- A document of these blocks. -/
def pausing : Element := ⟨"xml", ⟨[("board", "flip")]⟩, [pause.node]⟩

/-- The same document behind a field without a name, which comes before a block without a type. -/
def spoiled : Element :=
  { pausing with children := [.element "block" ⟨[("type", "pause")]⟩
      [.element "field" {} [], .element "next" {} [.element "block" {} []]], pause.node] }

theorem reads_in_order_pausing :
    (∃ d, ofRoot pausing = .ok d ∧ d.workspace.size = 3 ∧
      (∃ b, d.workspace.block? 0 = some b ∧ b.id = "p" ∧ b.disabled = true) ∧
      (∃ b, d.workspace.block? 1 = some b ∧ b.id = "math_number#1" ∧ b.disabled = false) ∧
      ∃ b, d.workspace.block? 2 = some b ∧ b.type = "set_pins" ∧ b.field? "P1" = some "0") ∧
    ofRoot spoiled = .error (.missingName "field") := by
  have hboard : pausing.HasKnownBoard := by
    rintro _ ⟨⟩
    exact ⟨.flip, rfl⟩
  have hmet : pausing.blocks = [pause, number, run] := by
    simp [pausing, pause, number, run, Element.blocks, Element.met, metOn, elements, Element.node,
      metIn, metFirst, Met.block?, List.filterMap_cons]
  obtain ⟨hok, hblocks, -, -⟩ := reads_in_order pausing
  obtain ⟨d, hd⟩ := hok.2 ⟨rfl, hboard, hmet ▸ by decide +kernel⟩
  obtain ⟨hsize, hblock⟩ := hblocks d hd
  rw [hmet] at hsize hblock
  obtain ⟨first, hfirst, -, -, hid, hdisabled⟩ := hblock 0 pause rfl
  obtain ⟨second, hsecond, -, htype, hid', hdisabled'⟩ := hblock 1 number rfl
  obtain ⟨third, hthird, hsays, htype', -⟩ := hblock 2 run rfl
  refine ⟨⟨d, hd, hsize, ⟨_, hfirst, hid, ?_⟩, ⟨_, hsecond, ?_, hdisabled'⟩, _, hthird, ?_, ?_⟩, ?_⟩
  · rw [hdisabled]
    decide +kernel
  · rw [hid', ← Option.some_inj.1 htype]
    decide +kernel
  · exact (Option.some_inj.1 htype').symm
  · rw [show third.finished.field? "P1" = third.finished.unlinked.field? "P1" from rfl,
      third.finished_unlinked, hsays]
    decide +kernel
  · exact ((reads_in_order spoiled).2.2.1 rfl hboard _).2 (by decide +kernel)

end Document

end BlockCompiler
