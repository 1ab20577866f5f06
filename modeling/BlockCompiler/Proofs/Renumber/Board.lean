import BlockCompiler.Proofs.Renumber.Emission
import Mathlib.Algebra.Group.End

set_option autoImplicit false

/-! # Programs for other boards

A board reaches the code of a block in two ways: through the block's definition, whose pin menus
follow the board, and through the checks of the kinds that `Kind.readsBoard` lists. Every menu of
pins begins with pin 0, so the texts that stand for missing fields are the same on all boards. What
is left are the checks: a workspace without a block of those kinds corresponds to itself on every
other board, and so compiles to the same program. -/

namespace BlockCompiler

/-! ## Definitions -/

namespace Field

/-- The field with its menu forgotten; the default stays. -/
def withoutMenu (f : Field) : Field := text f.name f.default

/-- Every board's menu of pins begins with pin 0. -/
theorem withoutMenu_pin (board : Board) (name : String) :
    (pin board name).withoutMenu = text name "0" := by
  cases board <;> rfl

end Field

namespace Definition

/-- The definition with the menus of its fields forgotten. -/
def withoutMenus (d : Definition) : Definition :=
  { d with fields := d.fields.map Field.withoutMenu }

theorem fieldDefault?_withoutMenus (d : Definition) (name : String) :
    d.withoutMenus.fieldDefault? name = d.fieldDefault? name := by
  simp only [fieldDefault?, field?, withoutMenus, List.find?_map, Option.map_map]
  rfl

/-- But for menus, the definition of a type is the same on all boards. -/
theorem withoutMenus_ofType? (type : String) (board board' : Board) :
    (ofType? type board').map withoutMenus = (ofType? type board).map withoutMenus := by
  have hkind (kind : Kind) :
      (kind.definition board').withoutMenus = (kind.definition board).withoutMenus := by
    cases kind <;> simp only [Kind.definition, PinGroup.definition, withoutMenus, List.map_cons,
      List.map_nil, List.map_append, Field.withoutMenu_pin]
  simp only [ofType?_eq, Option.map_map, Function.comp_def, hkind]

/-- A reader that does not look at menus finds the same on all boards. -/
theorem bind_ofType?_eq {α : Type} {read : Definition → Option α}
    (hread : ∀ d : Definition, read d.withoutMenus = read d) (type : String)
    (board board' : Board) : (ofType? type board').bind read = (ofType? type board).bind read := by
  have hsame := congrArg (Option.bind · read) (withoutMenus_ofType? type board board')
  simpa only [Option.bind_map, Function.comp_def, hread] using hsame

theorem map_shape_ofType? (type : String) (board board' : Board) :
    (ofType? type board').map shape = (ofType? type board).map shape := by
  have hsame := congrArg (Option.map shape) (withoutMenus_ofType? type board board')
  rw [Option.map_map, Option.map_map] at hsame
  exact hsame

end Definition

/-! ## Projects -/

section Boards

variable (w : Workspace) (board board' : Board)

/-- On another board a block holds the same for recipes. -/
theorem Block.matches_board (b : Block) :
    b.Matches (1 : Equiv.Perm BlockId) { workspace := w, board }
      { workspace := w, board := board' } b where
  id := rfl
  type := rfl
  field? _ := rfl
  field name := by
    simp only [Project.field, Project.definition?]
    rw [Definition.bind_ofType?_eq fun d => d.fieldDefault?_withoutMenus name]
  mutation? _ := rfl
  value? _ := (Option.map_id' ..).symm
  statement? _ := (Option.map_id' ..).symm
  socketDefault socket := by
    simp only [Project.socketDefault, Project.definition?]
    rw [Definition.bind_ofType?_eq fun _ => rfl]

namespace Workspace

/-- On another board a project corresponds to itself. -/
theorem corresponds_board :
    Project.Corresponds 1 { workspace := w, board } { workspace := w, board := board' } where
  size := rfl
  numbers := by simp
  index := by simp
  topBlocks := by simp
  shape _ _ b b' hb hb' := by
    obtain rfl : b = b' := Option.some_inj.1 (hb.symm.trans hb')
    exact Definition.map_shape_ofType? b.type board board'
  programOrder := by simp
  variableNames := rfl
  block? id := by
    rw [Equiv.Perm.one_apply]
    cases w.block? id with
    | none => exact .none
    | some b =>
      exact .some ⟨rfl, (Option.map_id' ..).symm, rfl, fun _ => b.matches_board w board board'⟩
  type hb hb' := by rw [Option.some_inj.1 (hb.symm.trans hb')]

variable {w}

/-- The board matters to the kinds alone whose code depends on it: a workspace without an enabled
block of such a kind compiles to the same program for every board. -/
theorem compile_eq_of_boards
    (h : ∀ b ∈ w.blocks, b.disabled = false → ∀ kind ∈ Kind.ofName? b.type,
      kind.readsBoard = false) (board board' : Board) :
    Project.compile { workspace := w, board := board' } =
      Project.compile { workspace := w, board } := by
  have hrel := corresponds_board w board board'
  refine hrel.compile_eq_of_enabled fun {id b b'} hb hb' henabled => ?_
  obtain rfl : b = b' := Option.some_inj.1 (hb.symm.trans hb')
  refine Emit.recipe_renumber hrel (b.matches_board w board board') id fun kind hkind hreads => ?_
  rw [h b (Array.mem_of_getElem? hb) henabled kind hkind] at hreads
  cases hreads

end Workspace

end Boards

namespace Workspace

/-- A card and a group of pins for which no pin was chosen, a pin that few boards have, and a block of
a robot that is disabled. -/
def unwired : Workspace where
  blocks := #[
    { id := "card", type := "sd_init", next := some 1 },
    { id := "pin", type := "make_pin", fields := ⟨[("PIN", "27")]⟩, next := some 2 },
    { id := "group", type := "set_pins", next := some 3 },
    { id := "robot", type := "scribbler_stop", disabled := true }]
  top := [0]
  index := [0, 1, 2, 3]

theorem compile_eq_of_boards_unwired :
    (∀ b ∈ unwired.blocks, b.disabled = false → ∀ kind ∈ Kind.ofName? b.type,
      kind.readsBoard = false) ∧
      ∀ board board' : Board, Project.compile { workspace := unwired, board := board' } =
        Project.compile { workspace := unwired, board } :=
  ⟨by decide, compile_eq_of_boards (by decide)⟩

end Workspace

end BlockCompiler
