import BlockCompiler.Proofs.Emission.CommentBlock
import BlockCompiler.Proofs.Emission.Speech

set_option autoImplicit false

/-! # Recipes and definitions

The catalog of definitions says of every kind whether its blocks are values, and the catalog of recipes
yields a value for those and whole lines for the others. Whole lines are not all that it takes: a line
comment goes on behind them if they end with a backslash, which only a text of the user does. -/

namespace BlockCompiler

open Text

namespace Emit

variable {p : Project} {b : Block}

/-- An emitter yields a value exactly if the definition of its kind says so. -/
def Emitter.Fits (shape : Shape) : Emitter → Prop
  | .statement _ => shape ≠ .value
  | .value _ => shape = .value

theorem emitter_fits (p : Project) (id : BlockId) (b : Block) (board : Board) (kind : Kind) :
    Emitter.Fits (kind.definition board).shape (emitter p id b kind) := by
  cases kind <;> unfold emitter <;> first | rfl | exact nofun

/-- A recipe is that of an unknown type only if the type is unknown. -/
theorem recipe_eq_unknown_iff (p : Project) (id : BlockId) (b : Block) :
    recipe p id b = (Emitter.statement (unknownType b)).fragment ↔
      Kind.ofName? b.type = none := by
  refine ⟨fun heq => ?_, fun hnone => recipe_of_unknown hnone id⟩
  by_contra hsome
  obtain ⟨kind, hkind⟩ := Option.ne_none_iff_exists'.1 hsome
  -- the path that records the message is none of the recipe of a known type
  let d : Diagnostic := ⟨.warning, b.id, b.type, unknownMessage b⟩
  have hpath : (recipe p id b).Path [.did (.diagnose d) ()] (.statement d.comment) := by
    rw [heq]
    exact .act (show (Action.diagnose d).Answer from ()) (.done _)
  obtain ⟨-, hallowed, -⟩ := p.recipe_meets id b _ _ hpath (by simp [Event.IsClosed])
  have hallows : p.Allows b (.diagnose d) := hallowed _ List.mem_cons_self
  unfold Project.Allows at hallows
  rw [hkind] at hallows
  cases hallows with
  | diagnose hremark => exact hremark.head?_ne (head?_unknownMessage b)

end Emit

namespace Project

variable (p : Project)

theorem run_recipe_isClosed (id : BlockId) (b : Block) (s : Emission) :
    (p.run (Emit.recipe p id b) s).1.IsClosed := by
  obtain ⟨es, -, hpath, hclosed, -⟩ := p.emit_makesCode.run_path (Emit.recipe p id b) s
  exact (p.recipe_meets id b es _ hpath hclosed).2.2

/-- The code of a stack is whole lines, whatever is active. -/
theorem run_chain_isClosed (head : BlockId) (s : Emission) :
    IsClosed (p.run (Emit.chain p head) s).1 := by
  obtain ⟨es, -, hpath, hclosed, -⟩ := p.emit_makesCode.run_path (Emit.chain p head) s
  have hmeets : (Emit.chain p head).Meets _ (fun _ => True) IsClosed :=
    Emit.chain_meets p fun _ _ _ => trivial
  exact (hmeets es _ hpath hclosed).2.2

/-- The code of a block is a value exactly if its definition says so. -/
theorem run_recipe_fits (id : BlockId) (b : Block) (s : Emission) :
    if (p.definition? b).map Definition.shape = some .value then
      ∃ found, (p.run (Emit.recipe p id b) s).1 = .expression found
    else ∃ text, (p.run (Emit.recipe p id b) s).1 = .statement text := by
  rw [definition?, Definition.ofType?_eq]
  cases hkind : Kind.ofName? b.type with
  | none =>
    rw [Emit.recipe_of_unknown hkind, if_neg nofun]
    exact ⟨_, rfl⟩
  | some kind =>
    have hfits := Emit.emitter_fits p id b p.board kind
    rw [Emit.recipe_of_kind hkind]
    cases hemitter : Emit.emitter p id b kind with
    | statement code =>
      rw [hemitter] at hfits
      have hshape : (kind.definition p.board).shape ≠ .value := hfits
      rw [if_neg (by simpa using hshape)]
      exact ⟨_, congrArg Prod.fst (run_bind _ _ _)⟩
    | value code =>
      rw [hemitter] at hfits
      have hshape : (kind.definition p.board).shape = .value := hfits
      rw [if_pos (by simpa using hshape)]
      exact ⟨_, congrArg Prod.fst (run_bind _ _ _)⟩

/-- A comment that goes on behind the code of a block comes of a text of the user that a backslash
ends. -/
theorem verbatim_of_swallows {id : BlockId} {b : Block} {s : Emission} {text : String}
    (hcode : (p.run (Emit.recipe p id b) s).1 = .statement text) (h : Swallows text) :
    Emit.IsVerbatim p b ∧ ∃ front, text.toList = front ++ ['\\', '\n'] := by
  have hclosed : (Fragment.statement text).IsClosed := hcode ▸ p.run_recipe_isClosed id b s
  refine ⟨?_, IsClosed.ends_of_swallows hclosed h⟩
  by_contra hverbatim
  have htight := (p.emit_makesCode.run_speaks (Emit.recipe_speaks hverbatim id) s).1
  rw [show (Recipe.run p.emit (Emit.recipe p id b) s).1 = _ from hcode] at htight
  exact IsTight.not_swallows htight h

/-- Recipes and definitions agree: the types listed with a recipe are those listed with a definition;
the recipe is that of an unknown type exactly if its type is not listed, and then there is no
definition either. A recipe yields a value exactly if the definition says so, else whole lines, as
stacks do. A line comment goes on behind the lines only if a backslash ends a text of the user; behind
those of a comment block it does exactly if the comment ends with one. -/
theorem recipe_agrees (id : BlockId) (b : Block) (head : BlockId) (s : Emission) :
    (b.type ∈ Emit.types.map Prod.fst ↔ b.type ∈ Definition.types.map Prod.fst) ∧
    (Emit.recipe p id b = (Emitter.statement (Emit.unknownType b)).fragment ↔
      b.type ∉ Emit.types.map Prod.fst) ∧
    (p.definition? b = none ↔ b.type ∉ Definition.types.map Prod.fst) ∧
    (if (p.definition? b).map Definition.shape = some .value then
      ∃ found, (p.run (Emit.recipe p id b) s).1 = .expression found
    else ∃ text, (p.run (Emit.recipe p id b) s).1 = .statement text ∧ IsClosed text ∧
      (Swallows text → Emit.IsVerbatim p b ∧ ∃ front, text.toList = front ++ ['\\', '\n']) ∧
      (Kind.ofName? b.type = some .comment →
        (Swallows text ↔ (trimRight (p.field b "COMMENT_TEXT").toList).getLast? = some '\\'))) ∧
    IsClosed (p.run (Emit.chain p head) s).1 := by
  have hrecipe : b.type ∉ Emit.types.map Prod.fst ↔ Kind.ofName? b.type = none := by
    rw [← Kind.lookup_eq_none_iff, Emit.lookup_types]
  have hdefinition : b.type ∉ Definition.types.map Prod.fst ↔ Kind.ofName? b.type = none := by
    rw [← Kind.lookup_eq_none_iff, Definition.lookup_types]
  have hnone : p.definition? b = none ↔ Kind.ofName? b.type = none := by
    rw [definition?, Definition.ofType?_eq, Option.map_eq_none_iff]
  refine ⟨not_iff_not.1 (hrecipe.trans hdefinition.symm),
    (Emit.recipe_eq_unknown_iff p id b).trans hrecipe.symm, hnone.trans hdefinition.symm, ?_,
    p.run_chain_isClosed head s⟩
  have hfits := p.run_recipe_fits id b s
  split
  · next hvalue => rwa [if_pos hvalue] at hfits
  · next hvalue =>
    rw [if_neg hvalue] at hfits
    obtain ⟨text, hcode⟩ := hfits
    have hclosed : (Fragment.statement text).IsClosed := hcode ▸ p.run_recipe_isClosed id b s
    refine ⟨text, hcode, hclosed, p.verbatim_of_swallows hcode, fun hkind => ?_⟩
    rw [Emit.recipe_of_comment hkind] at hcode
    obtain rfl : String.ofList (Emit.commentLine p b) = text := Fragment.statement.inj hcode
    exact Emit.swallows_commentLine

end Project

end BlockCompiler
