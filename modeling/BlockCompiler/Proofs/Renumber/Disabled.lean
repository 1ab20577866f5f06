import BlockCompiler.Proofs.Renumber.Emission
import BlockCompiler.Proofs.Workspace.Forest
import Mathlib.Algebra.Group.End

set_option autoImplicit false

/-! # Disabled blocks

A disabled block holds its place in a workspace and nothing else: exchanging its fields, its mutation
and, unless it heads a stack on the canvas, its type leaves the text of the program as it is. The
links of a disabled block do count, since a stack goes on below it. A stack that runs into itself at
a disabled block is cut there, and the warning about it names the block with its type; everything
else that is told is the same as well. -/

namespace BlockCompiler

/-- The same block, unless it is disabled; then its type, its fields and its mutation may be
others. -/
structure Block.AgreesIfEnabled (b b' : Block) : Prop where
  frame : b' = { b with type := b'.type, fields := b'.fields, mutation := b'.mutation }
  content : b.disabled = false → b' = b

/-- In another workspace the same block holds the same for recipes. -/
theorem Block.matches_self (b : Block) (w w' : Workspace) (board : Board) :
    b.Matches (1 : Equiv.Perm BlockId) { workspace := w, board } { workspace := w', board } b where
  id := rfl
  type := rfl
  field? _ := rfl
  field _ := rfl
  mutation? _ := rfl
  value? _ := (Option.map_id' ..).symm
  statement? _ := (Option.map_id' ..).symm
  socketDefault _ := rfl

namespace Workspace

/-- The same workspace but for what disabled blocks carry. Those that head a stack on the canvas keep
their types. -/
structure AgreesOnEnabled (w w' : Workspace) : Prop where
  size : w'.size = w.size
  block? : ∀ id, Option.Rel Block.AgreesIfEnabled (w.block? id) (w'.block? id)
  type : ∀ id ∈ w.top, (w'.block? id).map Block.type = (w.block? id).map Block.type
  top : w'.top = w.top
  index : w'.index.Perm w.index
  variableNames : w'.variableNames = w.variableNames

/-- A diagnostic tells itself, and the warning that cuts a stack at a disabled block tells the one
that names the block's other type. -/
inductive Tells (w w' : Workspace) : Diagnostic → Diagnostic → Prop
  | same (d : Diagnostic) : Tells w w' d d
  | cyclic {head id : BlockId} {b b' : Block} :
    (w.chainFrom head).repeated = some id → w.block? id = some b → w'.block? id = some b' →
    b.disabled = true → Tells w w' b.cyclicWarning b'.cyclicWarning

/-- The walk in program order reads a workspace through its links. -/
theorem visit_congr {w w' : Workspace} (h : w'.links = w.links) (fuel : Nat)
    (agenda seen : List BlockId) : w'.visit fuel agenda seen = w.visit fuel agenda seen := by
  induction fuel generalizing agenda seen with
  | zero => rfl
  | succ fuel ih =>
    cases agenda with
    | nil => rfl
    | cons id agenda => simp only [visit, h, ih]

namespace AgreesOnEnabled

variable {w w' : Workspace} (h : w.AgreesOnEnabled w')

include h

theorem of_some {id : BlockId} {b : Block} (hb : w.block? id = some b) :
    ∃ b', w'.block? id = some b' ∧ b.AgreesIfEnabled b' :=
  exists_of_rel_some (h.block? id) hb

theorem of_none {id : BlockId} (hb : w.block? id = none) : w'.block? id = none :=
  eq_none_of_rel (h.block? id) hb

theorem isAbove_eq : w'.isAbove = w.isAbove := by
  funext above below
  unfold isAbove
  cases habove : w.block? above with
  | none => rw [h.of_none habove]
  | some a =>
    obtain ⟨a', ha', hrel⟩ := h.of_some habove
    rw [ha', hrel.frame]
    cases hbelow : w.block? below with
    | none => rw [h.of_none hbelow]
    | some b =>
      obtain ⟨b', hb', hrel⟩ := h.of_some hbelow
      rw [hb', hrel.frame]
      rfl

theorem topBlocks_eq : w'.topBlocks = w.topBlocks := by
  rw [topBlocks, topBlocks, h.isAbove_eq, h.top]

theorem links_eq : w'.links = w.links := by
  funext id
  unfold links
  cases hb : w.block? id with
  | none => rw [h.of_none hb]
  | some b =>
    obtain ⟨b', hb', hrel⟩ := h.of_some hb
    rw [hb', hrel.frame]
    rfl

theorem programOrder_eq : w'.programOrder = w.programOrder := by
  rw [programOrder, programOrder, linkCount, linkCount, visit_congr h.links_eq, h.topBlocks_eq,
    h.links_eq, h.size, h.top]

/-- Recipes read the same in both workspaces. -/
theorem agrees (board : Board) :
    Project.Agrees 1 { workspace := w, board } { workspace := w', board } where
  size := h.size
  numbers := by simp [h.size]
  index := by simpa using h.index
  topBlocks := by simpa using h.topBlocks_eq
  shape id hid b b' hb hb' := by
    have htype := h.type id (w.topBlocks_perm.mem_iff.1 hid)
    rw [Equiv.Perm.one_apply] at hb'
    rw [hb, hb'] at htype
    simp only [Project.definition?, Option.some_inj.1 htype]
  programOrder := by simpa using h.programOrder_eq
  variableNames := h.variableNames
  block? id := by
    rw [Equiv.Perm.one_apply]
    cases hb : w.block? id with
    | none =>
      rw [h.of_none hb]
      exact .none
    | some b =>
      obtain ⟨b', hb', hrel⟩ := h.of_some hb
      rw [hb']
      refine .some ⟨by rw [hrel.frame], ?_, by rw [hrel.frame], fun henabled => ?_⟩
      · rw [hrel.frame]
        exact (Option.map_id' ..).symm
      · rw [hrel.content henabled]
        exact b.matches_self w w' board

end AgreesOnEnabled

/-! ## A stack that runs into itself -/

/-- A block below which a disabled one of the given type is put below itself. -/
def looping (type : String) : Workspace where
  blocks := #[
    { id := "line", type := "console_newline", next := some 1 },
    { id := "idle", type, disabled := true, next := some 1 }]
  top := [0]
  index := [0, 1]

theorem looping_agreesOnEnabled (type type' : String) :
    (looping type).AgreesOnEnabled (looping type') where
  size := rfl
  block? id := by
    match id with
    | 0 => exact .some ⟨rfl, fun _ => rfl⟩
    | 1 => exact .some ⟨rfl, nofun⟩
    | id + 2 => exact .none
  type id hid := by
    obtain rfl := List.mem_singleton.1 hid
    rfl
  top := rfl
  index := .refl _
  variableNames := rfl

theorem looping_isValid (type : String) : (looping type).IsValid where
  links id := by
    have hlast : ∀ j ∈ [1], j < (looping type).size := by
      intro j hj
      obtain rfl := List.mem_singleton.1 hj
      exact Nat.lt_succ_self 1
    match id with
    | 0 => exact hlast
    | 1 => exact hlast
    | id + 2 => exact nofun
  top id hid := by
    obtain rfl := List.mem_singleton.1 hid
    exact Nat.zero_lt_two

end Workspace

end BlockCompiler
