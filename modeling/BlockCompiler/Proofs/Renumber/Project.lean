import BlockCompiler.Emit.Catalog
import BlockCompiler.Proofs.Renumber.Recipe
import BlockCompiler.Proofs.Renumber.Workspace
import Mathlib.Data.List.Forall2

set_option autoImplicit false

/-! # Corresponding projects

Two projects agree if recipes read the same in both but for the numbers of blocks: block `id` of one
has number `σ id` in the other. Of a disabled block recipes read very little, so of such a block
little has to be the same. The one place where the type of any disabled block shows is the warning at
which a stack that runs into itself is cut; projects in which all types are the same correspond. This
file lists what recipes ask of a project as a whole: stacks, the program order, and whether there is
a block of some type. -/

namespace BlockCompiler

/-! ## Relations -/

/-- What an enabled block's recipe reads of the block is the same in both projects. -/
structure Block.Matches (σ : BlockId → BlockId) (p p' : Project) (b b' : Block) : Prop where
  id : b'.id = b.id
  type : b'.type = b.type
  field? : ∀ name, b'.field? name = b.field? name
  field : ∀ name, p'.field b' name = p.field b name
  mutation? : ∀ name, b'.mutation.get? name = b.mutation.get? name
  value? : ∀ socket, b'.values.get? socket = (b.values.get? socket).map σ
  statement? : ∀ socket, b'.statements.get? socket = (b.statements.get? socket).map σ
  socketDefault : ∀ socket, p'.socketDefault b' socket = p.socketDefault b socket

/-- What any recipe reads of a block is the same in both projects, unless the block is disabled and
a stack runs into itself there. -/
structure Block.Agrees (σ : BlockId → BlockId) (p p' : Project) (b b' : Block) : Prop where
  id : b'.id = b.id
  next : b'.next = b.next.map σ
  disabled : b'.disabled = b.disabled
  content : b.disabled = false → b.Matches σ p p' b'

/-- Two projects in which recipes read the same but for the numbers of blocks and the types of
disabled ones. -/
structure Project.Agrees (σ : Equiv.Perm BlockId) (p p' : Project) : Prop where
  size : p'.workspace.size = p.workspace.size
  numbers : (List.range p'.workspace.size).Perm ((List.range p.workspace.size).map σ)
  block? : ∀ id, Option.Rel (Block.Agrees σ p p') (p.workspace.block? id)
    (p'.workspace.block? (σ id))
  index : p'.workspace.index.Perm (p.workspace.index.map σ)
  topBlocks : p'.workspace.topBlocks = p.workspace.topBlocks.map σ
  shape : ∀ id ∈ p.workspace.topBlocks, ∀ b b', p.workspace.block? id = some b →
    p'.workspace.block? (σ id) = some b' →
    (p'.definition? b').map Definition.shape = (p.definition? b).map Definition.shape
  programOrder : p'.workspace.programOrder = p.workspace.programOrder.map σ
  variableNames : p'.workspace.variableNames = p.workspace.variableNames

/-- Two projects that recipes cannot tell apart but for the numbers of blocks. -/
structure Project.Corresponds (σ : Equiv.Perm BlockId) (p p' : Project) : Prop extends
    Project.Agrees σ p p' where
  type : ∀ {id b b'}, p.workspace.block? id = some b → p'.workspace.block? (σ id) = some b' →
    b'.type = b.type

/-- The warning at a block where a stack runs into itself. -/
def Block.cyclicWarning (b : Block) : Diagnostic :=
  ⟨.warning, b.id, b.type, "Cyclic statement chain; stopped here."⟩

/-- Where a stack runs into itself, the warning of one project tells that of the other. -/
def Project.TellsCycles (σ : BlockId → BlockId) (p p' : Project)
    (tells : Diagnostic → Diagnostic → Prop) : Prop :=
  ∀ {head id b b'}, (p.workspace.chainFrom head).repeated = some id →
    p.workspace.block? id = some b → p'.workspace.block? (σ id) = some b' →
    tells b.cyclicWarning b'.cyclicWarning

/-- A diagnostic names its block by name and type. -/
theorem Recipe.diagnose_congr {b b' : Block} (hid : b'.id = b.id) (htype : b'.type = b.type)
    (severity : Severity) (message : String) :
    Recipe.diagnose severity b' message = Recipe.diagnose severity b message := by
  unfold Recipe.diagnose
  rw [hid, htype]

namespace Block.Matches

variable {σ : BlockId → BlockId} {p p' : Project} {b b' : Block} (hb : b.Matches σ p p' b')

include hb

theorem fieldOr (name fallback : String) : b'.fieldOr name fallback = b.fieldOr name fallback := by
  simp only [Block.fieldOr, hb.field?]

theorem mutationCount (name : String) : b'.mutationCount name = b.mutationCount name := by
  simp only [Block.mutationCount, hb.mutation?]

theorem variableName : Emit.variableName p' b' = Emit.variableName p b := by
  rw [Emit.variableName, Emit.variableName, hb.field]

theorem repeatMode : RepeatMode.ofBlock b' = RepeatMode.ofBlock b := by
  rw [RepeatMode.ofBlock, RepeatMode.ofBlock, hb.mutation?, hb.field?]

theorem pinGroup : PinGroup.ofBlock b' = PinGroup.ofBlock b := by
  simp only [PinGroup.ofBlock, hb.field?]

theorem pinSource (socket : String) : PinSource.ofBlock b' socket = PinSource.ofBlock b socket := by
  unfold PinSource.ofBlock Ledger.contains
  rw [hb.mutation?, hb.value?, Option.isSome_map]

theorem warning (message : String) : Recipe.warning b' message = Recipe.warning b message :=
  Recipe.diagnose_congr hb.id hb.type .warning message

theorem error (message : String) : Recipe.error b' message = Recipe.error b message :=
  Recipe.diagnose_congr hb.id hb.type .error message

end Block.Matches

/-! ## Questions about a project -/

namespace Project.Agrees

variable {σ : Equiv.Perm BlockId} {p p' : Project} (h : p.Agrees σ p')

include h

theorem of_some {id : BlockId} {b : Block} (hb : p.workspace.block? id = some b) :
    ∃ b', p'.workspace.block? (σ id) = some b' ∧ b.Agrees σ p p' b' :=
  exists_of_rel_some (h.block? id) hb

theorem of_none {id : BlockId} (hb : p.workspace.block? id = none) :
    p'.workspace.block? (σ id) = none :=
  eq_none_of_rel (h.block? id) hb

/-! ### Stacks -/

theorem follow (fuel : Nat) (seen : List BlockId) (current : Option BlockId) :
    p'.workspace.follow fuel (seen.map σ) (current.map σ) =
      { members := (p.workspace.follow fuel seen current).members.map σ
        repeated := (p.workspace.follow fuel seen current).repeated.map σ } := by
  induction fuel generalizing seen current with
  | zero => cases current <;> rfl
  | succ fuel ih =>
    cases current with
    | none => rfl
    | some id =>
      rw [Option.map_some, Workspace.follow, Workspace.follow, contains_map σ.injective]
      split
      · rfl
      · cases hb : p.workspace.block? id with
        | none => rw [h.of_none hb]; rfl
        | some b =>
          obtain ⟨b', hb', hrel⟩ := h.of_some hb
          simp only [hb', hrel.next, ← List.map_cons, ih]

/-- A stack has the same members in the same order. -/
theorem chainFrom (head : BlockId) :
    p'.workspace.chainFrom (σ head) =
      { members := (p.workspace.chainFrom head).members.map σ
        repeated := (p.workspace.chainFrom head).repeated.map σ } := by
  unfold Workspace.chainFrom
  rw [h.size]
  exact h.follow _ [] (some head)

/-! ### Types -/

/-- A test of enabled blocks that reads what recipes read has the same outcome. -/
theorem isEnabled {test test' : Block → Bool}
    (htest : ∀ {b b'}, b.Matches σ p p' b' → test' b' = test b) (id : BlockId) :
    p'.workspace.isEnabled (σ id) test' = p.workspace.isEnabled id test := by
  unfold Workspace.isEnabled
  cases hb : p.workspace.block? id with
  | none => rw [h.of_none hb]
  | some b =>
    obtain ⟨b', hb', hrel⟩ := h.of_some hb
    rw [hb']
    simp only [hrel.disabled]
    cases hdisabled : b.disabled with
    | true => rfl
    | false => rw [htest (hrel.content hdisabled)]

theorem filter_map (ids : List BlockId) {test test' : Block → Bool}
    (htest : ∀ {b b'}, b.Matches σ p p' b' → test' b' = test b) :
    (ids.map σ).filter (fun id => p'.workspace.isEnabled id test') =
      (ids.filter fun id => p.workspace.isEnabled id test).map σ := by
  rw [List.filter_map]
  congr 1
  exact List.filter_congr fun id _ => h.isEnabled htest id

theorem ofType (type : String) :
    (p'.workspace.ofType type).Perm ((p.workspace.ofType type).map σ) := by
  have hfilter : (p.workspace.index.map σ).filter
      (fun id => p'.workspace.isEnabled id (·.type == type)) =
        (p.workspace.ofType type).map σ :=
    h.filter_map _ fun hb => by rw [hb.type]
  rw [← hfilter]
  exact h.index.filter _

theorem has (kind : Kind) : p'.has kind = p.has kind := by
  rw [Project.has, Workspace.containsType, (h.ofType _).isEmpty_eq, List.isEmpty_map]
  rfl

theorem isDefined (name : String) : Emit.isDefined p' name = Emit.isDefined p name := by
  unfold Emit.isDefined Workspace.containsMatching
  rw [(h.ofType _).any_eq, List.any_map]
  refine congrArg (List.any _) (funext fun id => h.isEnabled (fun hb => ?_) id)
  rw [hb.fieldOr]

theorem isBuffer (name : String) : Emit.isBuffer p' name = Emit.isBuffer p name := by
  have htest : ∀ {b b'}, b.Matches σ p p' b' →
      Emit.readsTextInto p' name b' = Emit.readsTextInto p name b := by
    intro b b' hb
    rw [Emit.readsTextInto, Emit.readsTextInto, hb.type, hb.field, hb.variableName]
  unfold Emit.isBuffer Workspace.findAll
  rw [(h.numbers.filter _).isEmpty_eq, h.filter_map _ htest, List.isEmpty_map]

/-! ### Program order -/

theorem inOrder (kind : Kind) : p'.inOrder kind = (p.inOrder kind).map σ := by
  unfold Project.inOrder Workspace.ofTypeInProgramOrder
  rw [h.programOrder]
  exact h.filter_map _ fun hb => by rw [hb.type]

theorem blocksInOrder (kind : Kind) :
    List.Forall₂ (Block.Matches σ p p') (p.blocksInOrder kind) (p'.blocksInOrder kind) := by
  unfold Project.blocksInOrder
  rw [h.inOrder]
  have henabled : ∀ id ∈ p.inOrder kind, p.workspace.isEnabled id (·.type == kind.name) = true :=
    fun id hid => (List.mem_filter.1 hid).2
  generalize p.inOrder kind = ids at henabled
  induction ids with
  | nil => exact .nil
  | cons id ids ih =>
    have hrest := ih fun j hj => henabled j (List.mem_cons_of_mem _ hj)
    have hid := henabled id List.mem_cons_self
    unfold Workspace.isEnabled at hid
    cases hb : p.workspace.block? id with
    | none => rw [hb] at hid; cases hid
    | some b =>
      obtain ⟨b', hb', hrel⟩ := h.of_some hb
      have hdisabled : b.disabled = false := by
        rw [hb] at hid
        simpa using (Bool.and_eq_true_iff.1 hid).1
      rw [List.map_cons, List.filterMap_cons_some hb, List.filterMap_cons_some hb']
      exact .cons (hrel.content hdisabled) hrest

/-- The first of the blocks that passes a test is the same. -/
theorem find?_blocksInOrder {α : Type} (kind : Kind) {test : Block → Bool} {read : Block → α}
    (htest : ∀ {b b'}, b.Matches σ p p' b' → test b' = test b)
    (hread : ∀ {b b'}, b.Matches σ p p' b' → read b' = read b) :
    ((p'.blocksInOrder kind).find? test).map read =
      ((p.blocksInOrder kind).find? test).map read := by
  have hrel := h.blocksInOrder kind
  generalize p.blocksInOrder kind = blocks, p'.blocksInOrder kind = blocks' at hrel
  induction hrel with
  | nil => rfl
  | cons hb _ ih =>
    simp only [List.find?_cons, htest hb]
    split
    · rw [Option.map_some, Option.map_some, hread hb]
    · exact ih

end Project.Agrees

/-- Of corresponding blocks the same is told. -/
theorem Project.Corresponds.tellsCycles {σ : Equiv.Perm BlockId} {p p' : Project}
    (h : p.Corresponds σ p') : p.TellsCycles σ p' Eq := by
  intro head id b b' _ hb hb'
  obtain ⟨found, hfound, hrel⟩ := h.of_some hb
  obtain rfl : found = b' := Option.some_inj.1 (hfound.symm.trans hb')
  rw [Block.cyclicWarning, Block.cyclicWarning, hrel.id, h.type hb hb']

/-! ## Other numbers -/

variable {σ : Equiv.Perm BlockId} {w w' : Workspace}

/-- A block under other numbers has the same content. -/
theorem Block.Renumbers.matches {b b' : Block} (h : b.Renumbers σ b') (hdistinct : w.HasDistinctKeys)
    {id : BlockId} (hb : w.block? id = some b) {board : Board} :
    b.Matches σ { workspace := w, board } { workspace := w', board } b' where
  id := h.id
  type := h.type
  field? name := by rw [Block.field?, h.fields, Block.field?]
  field name := by
    simp only [Project.field, Project.definition?, Block.field?, h.fields, h.type]
  mutation? name := by rw [h.mutation]
  value? := h.values.get? (hdistinct.values id b hb)
  statement? := h.statements.get? (hdistinct.statements id b hb)
  socketDefault socket := by simp only [Project.socketDefault, Project.definition?, h.type]

theorem Workspace.Renumbers.type_eq (h : w.Renumbers σ w') {id : BlockId} {b b' : Block}
    (hb : w.block? id = some b) (hb' : w'.block? (σ id) = some b') : b'.type = b.type := by
  obtain ⟨found, hfound, hrel⟩ := h.of_some hb
  obtain rfl : found = b' := Option.some_inj.1 (hfound.symm.trans hb')
  exact hrel.type

/-- A project under other numbers corresponds to the project. -/
theorem Workspace.Renumbers.corresponds (h : w.Renumbers σ w') (hvalid : w.IsValid)
    (hdistinct : w.HasDistinctKeys) (board : Board) :
    Project.Corresponds σ { workspace := w, board } { workspace := w', board } where
  size := h.size
  numbers := h.range_perm
  index := h.index
  topBlocks := h.topBlocks hdistinct hvalid
  programOrder := h.programOrder hdistinct hvalid
  variableNames := h.variableNames
  block? id := by
    cases hb : w.block? id with
    | none =>
      rw [h.of_none hb]
      exact .none
    | some b =>
      obtain ⟨b', hb', hrel⟩ := h.of_some hb
      rw [hb']
      exact .some ⟨hrel.id, hrel.next, hrel.disabled, fun _ => hrel.matches hdistinct hb⟩
  shape _ _ b b' hb hb' := by
    simp only [Project.definition?, h.type_eq hb hb']
  type := h.type_eq

end BlockCompiler
