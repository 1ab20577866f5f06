import BlockCompiler.Proofs.Context
import BlockCompiler.Proofs.Workspace.Forest
import Mathlib.Data.List.Nodup
import Mathlib.Data.List.Induction

set_option autoImplicit false

/-! # Changes of a workspace

A workspace answers which blocks are of a type from its index, which holds every block once, in the
order in which the blocks took their present types. Whatever changes led to the workspace, the
answers are those of a search through all blocks. They are also those of an index that is kept by
type, in which a block that is replaced moves from the list of its old type to the end of the list of
its new one. -/

namespace BlockCompiler.Workspace

/-! ## Changes -/

/-- A change of a workspace. -/
inductive Change where
  | add (b : Block)
  | addTop (b : Block)
  | connectValue (parent : BlockId) (socket : String) (child : BlockId)
  | connectStatement (parent : BlockId) (socket : String) (child : BlockId)
  | connectNext (above below : BlockId)
  | chain (ids : List BlockId)
  | declare (name : String)
  | replace (id : BlockId) (b : Block)

/-- Carries a change out. -/
def Change.perform (w : Workspace) : Change → Except Error Unit × Workspace
  | .add b => (.ok (), w.add b)
  | .addTop b => (.ok (), w.addTop b)
  | .connectValue parent socket child => (.ok (), w.connectValue parent socket child)
  | .connectStatement parent socket child => (.ok (), w.connectStatement parent socket child)
  | .connectNext above below => (.ok (), w.connectNext above below)
  | .chain ids => (.ok (), w.chain ids)
  | .declare name => (.ok (), w.declare name)
  | .replace id b =>
    match w.replace id b with
    | .ok w' => (.ok (), w')
    | .error fault => (.error fault, w)

/-- The workspace that some changes make of an empty one. -/
def built (changes : List Change) : Workspace :=
  changes.foldl (fun w change => (change.perform w).2) .empty

theorem built_concat (changes : List Change) (change : Change) :
    built (changes ++ [change]) = (change.perform (built changes)).2 :=
  List.foldl_concat ..

/-! ## Types of blocks -/

/-- The type of the block of a number. -/
def type? (w : Workspace) (id : BlockId) : Option String := (w.block? id).map (·.type)

theorem type?_add (w : Workspace) (b : Block) (id : BlockId) :
    (w.add b).type? id = if id = w.size then some b.type else w.type? id := by
  rw [type?, block?_add]
  split <;> rfl

/-- Changing a block without its type changes no type. -/
theorem type?_modify (w : Workspace) (id : BlockId) {change : Block → Block}
    (hchange : ∀ b, (change b).type = b.type) (j : BlockId) :
    (w.modify id change).type? j = w.type? j := by
  rw [type?, block?_modify]
  split
  · rw [Option.map_map]
    exact congrArg (fun f => (w.block? j).map f) (funext hchange)
  · rfl

theorem type?_exchange (w : Workspace) {id : BlockId} (b : Block) (h : id < w.size)
    (j : BlockId) : (w.exchange id b).type? j = if id = j then some b.type else w.type? j := by
  rw [type?, block?_exchange w b h]
  split <;> rfl

theorem type?_eq_none_of_le {w : Workspace} {id : BlockId} (h : w.size ≤ id) :
    w.type? id = none := by
  rw [type?, block?, Array.getElem?_eq_none h]
  rfl

/-- An enabled block of a type is one that is of the type and enabled. -/
theorem isEnabled_type (w : Workspace) (type : String) (id : BlockId) :
    w.isEnabled id (·.type == type) =
      (w.type? id == some type && w.isEnabled id fun _ => true) := by
  unfold isEnabled type?
  cases w.block? id with
  | none => rfl
  | some b => simp [Bool.and_comm]

/-! ## Links -/

/-- A workspace is another one with other links and other stacks on the canvas. -/
structure Relinks (w w' : Workspace) : Prop where
  size : w'.size = w.size
  index : w'.index = w.index
  variableNames : w'.variableNames = w.variableNames
  type? : ∀ id, w'.type? id = w.type? id

theorem Relinks.refl (w : Workspace) : w.Relinks w := ⟨rfl, rfl, rfl, fun _ => rfl⟩

theorem Relinks.trans {w w' w'' : Workspace} (h : w.Relinks w') (h' : w'.Relinks w'') :
    w.Relinks w'' where
  size := h'.size.trans h.size
  index := h'.index.trans h.index
  variableNames := h'.variableNames.trans h.variableNames
  type? id := (h'.type? id).trans (h.type? id)

theorem modify_relinks (w : Workspace) (id : BlockId) {change : Block → Block}
    (hchange : ∀ b, (change b).type = b.type) : w.Relinks (w.modify id change) :=
  ⟨w.size_modify id change, rfl, rfl, w.type?_modify id hchange⟩

theorem connectNext_relinks (w : Workspace) (above below : BlockId) :
    w.Relinks (w.connectNext above below) :=
  modify_relinks w above fun _ => rfl

theorem addTop_relinks (w : Workspace) (b : Block) : (w.add b).Relinks (w.addTop b) :=
  ⟨rfl, rfl, rfl, fun _ => rfl⟩

theorem chain_relinks (w : Workspace) (ids : List BlockId) : w.Relinks (w.chain ids) := by
  unfold chain
  induction ids.zip ids.tail generalizing w with
  | nil => exact .refl w
  | cons pair pairs ih => exact (connectNext_relinks w pair.1 pair.2).trans (ih _)

/-! ## The index -/

/-- The index holds every block once, and every variable was declared once. -/
structure IsKept (w : Workspace) : Prop where
  nodup : w.index.Nodup
  mem_index : ∀ id, id ∈ w.index ↔ id < w.size
  variables_nodup : w.variableNames.Nodup

namespace IsKept

variable {w w' : Workspace}

theorem empty : Workspace.empty.IsKept := ⟨.nil, fun _ => ⟨nofun, nofun⟩, .nil⟩

theorem of_relinks (h : w.IsKept) (hlinks : w.Relinks w') : w'.IsKept where
  nodup := hlinks.index ▸ h.nodup
  mem_index id := by rw [hlinks.index, hlinks.size, h.mem_index]
  variables_nodup := hlinks.variableNames ▸ h.variables_nodup

theorem add (h : w.IsKept) (b : Block) : (w.add b).IsKept where
  nodup := by
    show (w.index ++ [w.size]).Nodup
    exact Ledger.nodup_concat h.nodup fun hmem => Nat.lt_irrefl _ ((h.mem_index _).1 hmem)
  mem_index id := by
    show id ∈ w.index ++ [w.size] ↔ _
    rw [size_add, Nat.lt_succ_iff_lt_or_eq, List.mem_append, List.mem_singleton, h.mem_index]
  variables_nodup := h.variables_nodup

theorem declare (h : w.IsKept) (name : String) : (w.declare name).IsKept := by
  unfold Workspace.declare
  split
  · exact h
  · next hnew =>
    refine ⟨h.nodup, h.mem_index, Ledger.nodup_concat h.variables_nodup fun hmem => ?_⟩
    exact hnew (List.contains_iff_mem.2 hmem)

theorem exchange (h : w.IsKept) {id : BlockId} (hid : id < w.size) (b : Block) :
    (w.exchange id b).IsKept where
  nodup := by
    show (w.index.filter (· != id) ++ [id]).Nodup
    exact Ledger.nodup_concat (h.nodup.filter _) (by simp)
  mem_index j := by
    show j ∈ w.index.filter (· != id) ++ [id] ↔ _
    rw [size_exchange, List.mem_append, List.mem_filter, List.mem_singleton, h.mem_index]
    by_cases hj : j = id
    · simp [hj, hid]
    · simp [hj]
  variables_nodup := h.variables_nodup

theorem perform (h : w.IsKept) (change : Change) : (change.perform w).2.IsKept := by
  cases change with
  | add b => exact h.add b
  | addTop b => exact (h.add b).of_relinks (addTop_relinks w b)
  | connectValue | connectStatement => exact h.of_relinks (modify_relinks w _ fun _ => rfl)
  | connectNext above below => exact h.of_relinks (connectNext_relinks w above below)
  | chain ids => exact h.of_relinks (chain_relinks w ids)
  | declare name => exact h.declare name
  | replace id b =>
    rw [Change.perform, Workspace.replace]
    split
    · next hok =>
      split at hok
      · next hid =>
        cases hok
        exact h.exchange hid b
      · cases hok
    · exact h

theorem built (changes : List Change) : (built changes).IsKept := by
  induction changes using List.reverseRecOn with
  | nil => exact empty
  | append_singleton changes change ih =>
    rw [built_concat]
    exact ih.perform change

end IsKept

/-! ## An index by type -/

/-- Under each type the numbers of its blocks. -/
structure TypeIndex where
  lists : Ledger (List BlockId) := {}

namespace TypeIndex

variable (i : TypeIndex) (type : String) (id : BlockId)

/-- The numbers under a type. -/
def ids : List BlockId := (i.lists.get? type).getD []

/-- Enters a number at the end of a type's list. -/
def enter : TypeIndex := ⟨i.lists.put type (i.ids type ++ [id])⟩

/-- Takes a number out of a type's list. -/
def remove : TypeIndex := ⟨i.lists.put type ((i.ids type).filter (· != id))⟩

theorem ids_put (ids : List BlockId) (type' : String) :
    (TypeIndex.mk (i.lists.put type ids)).ids type' =
      if type' = type then ids else i.ids type' := by
  unfold TypeIndex.ids
  rw [Ledger.get?_put]
  by_cases h : type' = type <;> simp [h]

end TypeIndex

/-- What a change of a workspace does to its index by type. -/
def Change.refile (w : Workspace) (i : TypeIndex) : Change → TypeIndex
  | .add b => i.enter b.type w.nextId
  | .addTop b => i.enter b.type w.nextId
  | .replace id b =>
    match w.type? id with
    | some type => (i.remove type id).enter b.type id
    | none => i
  | _ => i

/-- The index by type that is kept while changes are carried out. -/
def filed (changes : List Change) : Workspace × TypeIndex :=
  changes.foldl (fun (w, i) change => ((change.perform w).2, change.refile w i)) (.empty, {})

/-- An index by type and the workspace's own index tell the same blocks of every type in the same
order. -/
def TypeIndex.IsIndexOf (i : TypeIndex) (w : Workspace) : Prop :=
  ∀ type, i.ids type = w.index.filter fun id => w.type? id == some type

namespace TypeIndex

variable {i : TypeIndex} {w w' : Workspace}

theorem IsIndexOf.of_relinks (h : i.IsIndexOf w) (hlinks : w.Relinks w') : i.IsIndexOf w' := by
  intro type
  simp only [hlinks.index, hlinks.type?]
  exact h type

theorem IsIndexOf.declare (h : i.IsIndexOf w) (name : String) : i.IsIndexOf (w.declare name) := by
  unfold Workspace.declare
  split <;> exact h

/-- A number goes to the end of the list of its block's type in both. -/
theorem ids_enter_eq {ids : List BlockId} {type type' : String} {id : BlockId}
    (hold : i.ids type' = ids.filter fun j => w'.type? j == some type')
    (hnew : w'.type? id = some type) :
    (i.enter type id).ids type' = (ids ++ [id]).filter fun j => w'.type? j == some type' := by
  rw [enter, ids_put, List.filter_append]
  by_cases htype : type' = type
  · subst htype
    simp [hold, hnew]
  · simp [hold, hnew, htype, Ne.symm htype]

theorem IsIndexOf.add (h : i.IsIndexOf w) (hkept : w.IsKept) (b : Block) :
    (i.enter b.type w.nextId).IsIndexOf (w.add b) := by
  intro type
  refine ids_enter_eq ?_ ((w.type?_add b w.size).trans (if_pos rfl))
  -- the numbers that are there already belong to other blocks
  rw [h type]
  refine List.filter_congr fun j hj => ?_
  rw [type?_add, if_neg (Nat.ne_of_lt ((hkept.mem_index j).1 hj))]

/-- A number stands in no list but that of its block's type. -/
theorem IsIndexOf.ids_remove (h : i.IsIndexOf w) {id : BlockId} {type : String}
    (htype : w.type? id = some type) (type' : String) :
    (i.remove type id).ids type' = (i.ids type').filter (· != id) := by
  rw [remove, ids_put]
  split
  · next heq => rw [heq]
  · next hne =>
    refine (List.filter_eq_self.2 fun j hj => bne_iff_ne.2 ?_).symm
    rintro rfl
    rw [h type', List.mem_filter, htype, beq_iff_eq, Option.some_inj] at hj
    exact hne hj.2.symm

theorem IsIndexOf.exchange (h : i.IsIndexOf w) {id : BlockId} (hid : id < w.size) {type : String}
    (htype : w.type? id = some type) (b : Block) :
    ((i.remove type id).enter b.type id).IsIndexOf (w.exchange id b) := by
  intro type'
  refine ids_enter_eq ?_ ((w.type?_exchange b hid id).trans (if_pos rfl))
  rw [h.ids_remove htype, h type', List.filter_filter, List.filter_filter]
  refine List.filter_congr fun j _ => ?_
  rw [type?_exchange w b hid]
  by_cases hj : id = j
  · simp [hj]
  · rw [if_neg hj, Bool.and_comm]

theorem IsIndexOf.refile (h : i.IsIndexOf w) (hkept : w.IsKept) (change : Change) :
    (change.refile w i).IsIndexOf (change.perform w).2 := by
  cases change with
  | add b => exact h.add hkept b
  | addTop b => exact (h.add hkept b).of_relinks (addTop_relinks w b)
  | connectValue | connectStatement => exact h.of_relinks (modify_relinks w _ fun _ => rfl)
  | connectNext above below => exact h.of_relinks (connectNext_relinks w above below)
  | chain ids => exact h.of_relinks (chain_relinks w ids)
  | declare name => exact h.declare name
  | replace id b =>
    rw [Change.refile, Change.perform, Workspace.replace]
    by_cases hid : id < w.size
    · obtain ⟨old, hold⟩ : ∃ old, w.block? id = some old := ⟨_, Array.getElem?_eq_getElem hid⟩
      have htype : w.type? id = some old.type := congrArg (Option.map Block.type) hold
      rw [if_pos hid, htype]
      exact h.exchange hid htype b
    · rw [if_neg hid, type?_eq_none_of_le (Nat.le_of_not_lt hid)]
      exact h

theorem filed_spec (changes : List Change) :
    (filed changes).1 = built changes ∧ (filed changes).2.IsIndexOf (built changes) := by
  induction changes using List.reverseRecOn with
  | nil => exact ⟨rfl, fun _ => rfl⟩
  | append_singleton changes change ih =>
    obtain ⟨hworkspace, hindex⟩ := ih
    have hconcat : filed (changes ++ [change]) =
        ((change.perform (filed changes).1).2, change.refile (filed changes).1 (filed changes).2) :=
      List.foldl_concat ..
    rw [hconcat, built_concat, hworkspace]
    exact ⟨rfl, hindex.refile (.built changes) change⟩

end TypeIndex

/-! ## Answers -/

variable {w : Workspace}

/-- The answers from the index are those of a search through all blocks, in another order. -/
theorem IsKept.ofType_perm (h : w.IsKept) (type : String) :
    (w.ofType type).Perm (w.findAll (·.type == type)) := by
  have hindex : w.index.Perm (List.range w.size) := by
    rw [List.perm_ext_iff_of_nodup h.nodup List.nodup_range]
    intro id
    rw [h.mem_index, List.mem_range]
  exact hindex.filter _

theorem IsKept.mem_ofType (h : w.IsKept) {type : String} {id : BlockId} : id ∈ w.ofType type ↔
    ∃ b, w.block? id = some b ∧ b.disabled = false ∧ b.type = type := by
  rw [(h.ofType_perm type).mem_iff, findAll, List.mem_filter, List.mem_range, isEnabled]
  cases hb : w.block? id with
  | none => simp
  | some b =>
    obtain ⟨hid, -⟩ := Array.getElem?_eq_some_iff.1 hb
    have hrange : id < w.size := hid
    simp [hrange]

theorem IsKept.containsType_iff (h : w.IsKept) (type : String) : w.containsType type = true ↔
    ∃ id b, w.block? id = some b ∧ b.disabled = false ∧ b.type = type := by
  rw [containsType, Bool.not_eq_true', List.isEmpty_eq_false_iff_exists_mem]
  exact exists_congr fun _ => h.mem_ofType

theorem TypeIndex.IsIndexOf.ofType_eq {i : TypeIndex} (h : i.IsIndexOf w) (type : String) :
    w.ofType type = (i.ids type).filter fun id => w.isEnabled id fun _ => true := by
  rw [h type, List.filter_filter]
  refine List.filter_congr fun id _ => ?_
  rw [isEnabled_type, Bool.and_comm]

/-- One workspace is another with the block of a number exchanged: all else that can be asked of it
is the same, and so is every link, those of the block itself apart. -/
structure Exchanges (w : Workspace) (id : BlockId) (b : Block) (w' : Workspace) : Prop where
  size : w'.size = w.size
  top : w'.top = w.top
  variableNames : w'.variableNames = w.variableNames
  block? : ∀ j, w'.block? j = if j = id then some b else w.block? j
  target? : ∀ j link, w'.target? j link = if j = id then b.target? link else w.target? j link

theorem exchanges_exchange (w : Workspace) {id : BlockId} (b : Block) (hid : id < w.size) :
    w.Exchanges id b (w.exchange id b) where
  size := w.size_exchange id b
  top := rfl
  variableNames := rfl
  block? j := by
    rw [block?_exchange w b hid]
    exact if_congr eq_comm rfl rfl
  target? j link := by
    rw [Workspace.target?, block?_exchange w b hid]
    by_cases hj : id = j
    · rw [if_pos hj, if_pos hj.symm, Option.bind_some]
    · rw [if_neg hj, if_neg (Ne.symm hj)]
      rfl

/-- After any changes of an empty workspace, the blocks that it answers for a type are those that a
search finds, each once, in the order of an index by type from which replaced blocks were moved; a
type is there if an enabled block is of it; and no variable is listed twice. Replacing a block fails
exactly if there is none, and changes nothing then; otherwise the block is exchanged and nothing
else. -/
theorem built_answers (changes : List Change) :
    (∀ type, ((built changes).ofType type).Nodup ∧
      ((built changes).ofType type).Perm ((built changes).findAll (·.type == type)) ∧
      (built changes).ofType type =
        ((filed changes).2.ids type).filter (fun id => (built changes).isEnabled id fun _ => true) ∧
      ((built changes).containsType type = true ↔
        ∃ id b, (built changes).block? id = some b ∧ b.disabled = false ∧ b.type = type)) ∧
      (built changes).variableNames.Nodup ∧
      ∀ id b,
        ((∃ fault, ((Change.replace id b).perform (built changes)).1 = .error fault) ↔
          (built changes).size ≤ id) ∧
        ((built changes).size ≤ id →
          ((Change.replace id b).perform (built changes)).2 = built changes) ∧
        (id < (built changes).size →
          (built changes).Exchanges id b ((Change.replace id b).perform (built changes)).2) := by
  have hkept := IsKept.built changes
  obtain ⟨-, hindex⟩ := TypeIndex.filed_spec changes
  refine ⟨fun type => ⟨hkept.nodup.filter _, hkept.ofType_perm type, hindex.ofType_eq type,
    hkept.containsType_iff type⟩, hkept.variables_nodup, fun id b => ?_⟩
  rw [Change.perform, Workspace.replace]
  by_cases hid : id < (built changes).size
  · rw [if_pos hid]
    refine ⟨⟨fun hfault => ?_, fun hle => ?_⟩, fun hle => ?_, fun _ => exchanges_exchange _ b hid⟩
    · obtain ⟨fault, hfault⟩ := hfault
      cases hfault
    · exact absurd hid (Nat.not_lt.2 hle)
    · exact absurd hid (Nat.not_lt.2 hle)
  · rw [if_neg hid]
    exact ⟨⟨fun _ => Nat.le_of_not_lt hid, fun _ => ⟨_, rfl⟩⟩, fun _ => rfl, fun h => absurd h hid⟩

/-- A block that is linked to is replaced by one of a type that has two blocks already, and another
one that does not exist is to be replaced. -/
def moved : List Change :=
  [.addTop { id := "a", type := "set_pins" },
    .add { id := "b", type := "make_pin", disabled := true },
    .add { id := "c", type := "make_pin" }, .connectNext 2 0, .declare "x", .declare "x",
    .replace 0 { id := "a", type := "make_pin" }, .replace 9 { id := "z", type := "pause" }]

theorem built_answers_moved : (built moved).ofType "make_pin" = [2, 0] ∧
    (built moved).containsType "set_pins" = false ∧ (built moved).containsType "pause" = false ∧
    (built moved).variableNames = ["x"] ∧ (built moved).target? 2 .next = some 0 ∧
    (built moved).size ≤ 9 ∧
    ((Change.replace 9 { id := "z", type := "pause" }).perform (built moved)).2 = built moved ∧
    1 < (built moved).size ∧ (built moved).Exchanges 1 { id := "b", type := "pause" }
      ((Change.replace 1 { id := "b", type := "pause" }).perform (built moved)).2 := by
  obtain ⟨-, -, hreplace⟩ := built_answers moved
  exact ⟨by decide, by decide, by decide, by decide, by decide, by decide,
    (hreplace 9 _).2.1 (by decide), by decide, (hreplace 1 _).2.2 (by decide)⟩

end BlockCompiler.Workspace
