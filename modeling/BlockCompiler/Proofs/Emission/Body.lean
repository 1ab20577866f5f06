import BlockCompiler.Proofs.Document.Forest
import BlockCompiler.Proofs.Document.Text
import BlockCompiler.Proofs.Emission.Laid
import BlockCompiler.Proofs.Workspace.Sorted
import BlockCompiler.Proofs.Workspace.Walk
import Mathlib.Data.List.Forall2

set_option autoImplicit false

/-! # The body of the main function

In the program of a document every block is run at most once, and every enabled block of a stack on
the canvas exactly once. The body of the main function is the code of these blocks and nothing else:
stack by stack in canvas order, and in a stack block by block from its head on. -/

namespace BlockCompiler

namespace Project

open Workspace

variable {p : Project}

/-! ## What is printed -/

/-- The statements that a block yielded when it was run; none if it was not run or yielded a value. -/
def statementText (p : Project) (id : BlockId) : String :=
  match p.codeOf? id with
  | some (.statement text) => text
  | _ => ""

/-- How a block takes part in a program, if its type is known. -/
def shape? (p : Project) (b : Block) : Option Shape := (p.definition? b).map Definition.shape

/-- A block on the canvas heads a stack of statements: it is no value, and no definition unless it is
disabled. -/
def HeadsStack (p : Project) (b : Block) : Prop :=
  p.shape? b ≠ some .value ∧ (p.shape? b = some .definition → b.disabled = true)

/-- The text that a block on the canvas contributes to the body of the main function. -/
inductive Prints (p : Project) : BlockId → String → Prop
  | value {id : BlockId} {b : Block} :
    p.workspace.block? id = some b → p.shape? b = some .value → Prints p id ""
  | definition {id : BlockId} {b : Block} :
    p.workspace.block? id = some b → p.shape? b = some .definition → b.disabled = false →
    Prints p id (p.statementText id)
  | stack {id : BlockId} {b : Block} {ids : List BlockId} :
    p.workspace.block? id = some b → p.HeadsStack b → p.workspace.IsStack id ids →
    Prints p id (String.join (ids.map p.statementText))

/-! ## Stacks -/

section Stacks

variable (h : p.workspace.IsForest p.workspace.top)

include h

/-- What takes no part in the program yields nothing. -/
theorem statementText_of_not_takesPart {id : BlockId} (hid : p.workspace.takesPart id = false) :
    p.statementText id = "" := by
  unfold statementText
  cases hcode : p.codeOf? id with
  | none => rfl
  | some fragment =>
    have htakes := (of_mem_started h (started_of_codeOf? hcode)).1
    rw [hid] at htakes
    cases htakes

variable {es : List Event} {text : String} (hcodes : ∀ x g, .made x g ∈ es → p.codeOf? x = some g)

include hcodes

omit h in
theorem definitionCode_path {id : BlockId} (hpath : (definitionCode id).Path es text) :
    text = p.statementText id := by
  obtain ⟨es₁, fragment, es₂, rfl, hcode, hrest⟩ := hpath.of_bind
  obtain rfl := hcode.of_code
  have hmade := hcodes id fragment (List.mem_append_left _ List.mem_cons_self)
  rw [statementText, hmade]
  cases fragment with
  | statement code => exact hrest.of_pure.2
  | expression found => exact hrest.of_pure.2

theorem member_path {id : BlockId} (hpath : (Emit.member p id).Path es text) :
    text = p.statementText id := by
  have hoff : p.workspace.takesPart id = false → text = "" → text = p.statementText id :=
    fun hid htext => htext.trans (statementText_of_not_takesPart h hid).symm
  unfold Emit.member at hpath
  cases hb : p.workspace.block? id with
  | none =>
    rw [hb] at hpath
    refine hoff ?_ hpath.of_pure.2
    rw [takesPart, isEnabled, hb]
  | some b =>
    simp only [hb] at hpath
    split at hpath
    · next hdisabled =>
      refine hoff ?_ hpath.of_pure.2
      rw [takesPart, isEnabled, hb]
      simp [hdisabled]
    · exact definitionCode_path hcodes hpath

/-- The code of a stack is the statements of its blocks. -/
theorem chain_path {head : Nat} (hhead : head < p.workspace.size)
    (hpath : (Emit.chain p head).Path es text) :
    text = String.join ((p.workspace.chainFrom head).members.map p.statementText) := by
  obtain ⟨es₁, body, es₂, rfl, hbody, hrest⟩ := hpath.of_bind
  obtain ⟨es₂, close, es₃, rfl, hclose, hpure⟩ := hrest.of_bind
  obtain ⟨rfl, rfl⟩ := hpure.of_pure
  -- a stack in a forest ends, so no remark closes it
  rw [(h.chainFrom_spec hhead).ends] at hclose
  obtain ⟨rfl, rfl⟩ := Recipe.Path.of_pure hclose
  obtain ⟨texts, rfl, htexts⟩ := hbody.of_concat
  have hmembers : (p.workspace.chainFrom head).members.map p.statementText = texts := by
    rw [← List.forall₂_eq_eq_eq, List.forall₂_map_left_iff]
    refine htexts.imp ?_
    rintro id text ⟨es', hsub, hmember⟩
    exact (member_path h (fun x g hmade => hcodes x g (List.mem_append_left _ (hsub hmade)))
      hmember).symm
  rw [hmembers, String.append_empty]

/-- A block on the canvas contributes the text that it is said to. -/
theorem stackCode_path {id : BlockId} (hid : id ∈ p.workspace.top)
    (hpath : (p.stackCode id).Path es text) : p.Prints id text := by
  have hlt : id < p.workspace.size := h.valid id hid
  obtain ⟨b, hb⟩ := IsValid.exists_block? hlt
  have hchain : p.HeadsStack b → (Emit.chain p id).Path es text → p.Prints id text := by
    intro hheads hpath
    rw [chain_path h hcodes hlt hpath]
    exact .stack hb hheads (h.chainFrom_isStack hlt)
  unfold stackCode at hpath
  simp only [hb] at hpath
  split at hpath
  · next hshape =>
    split at hpath
    · next hdisabled => exact hchain ⟨by simp [shape?, hshape], fun _ => hdisabled⟩ hpath
    · next henabled =>
      rw [definitionCode_path hcodes hpath]
      exact .definition hb hshape (Bool.eq_false_iff.2 henabled)
  · next hshape =>
    obtain ⟨-, rfl⟩ := hpath.of_pure
    exact .value hb hshape
  · next hdefinition hvalue =>
    exact hchain ⟨hvalue, fun hshape => absurd hshape hdefinition⟩ hpath

end Stacks

/-! ## Programs -/

variable (h : p.workspace.IsForest p.workspace.top)

include h

theorem exists_printed : ∃ texts, List.Forall₂ p.Prints p.workspace.topBlocks texts ∧
    p.body = String.join texts := by
  obtain ⟨es, hpath, -, hcodes⟩ := path_of_mainBody h
  obtain ⟨es₁, -, es₂, rfl, -, hstacks⟩ := hpath.of_bind
  obtain ⟨texts, hbody, htexts⟩ := hstacks.of_concat
  refine ⟨texts, List.forall₂_iff_zip.2 ⟨htexts.length_eq, fun {id text} hmem => ?_⟩, hbody⟩
  obtain ⟨es', hsub, hstack⟩ := (List.forall₂_iff_zip.1 htexts).2 hmem
  have hid : id ∈ p.workspace.top := p.workspace.topBlocks_perm.mem_iff.1 (List.of_mem_zip hmem).1
  exact stackCode_path h (fun x g hmade => hcodes x g (List.mem_append_right _ (hsub hmade))) hid
    hstack

/-- The enabled blocks of a stack of statements on the canvas are run. -/
theorem mem_started_of_isStack {root x : BlockId} {b bx : Block} {ids : List BlockId}
    (hroot : root ∈ p.workspace.top) (hb : p.workspace.block? root = some b)
    (hheads : p.HeadsStack b) (hstack : p.workspace.IsStack root ids) (hx : x ∈ ids)
    (hbx : p.workspace.block? x = some bx) (henabled : bx.disabled = false) :
    x ∈ p.final.started := by
  obtain rfl := hstack.unique (h.chainFrom_isStack (h.valid root hroot))
  have hmember : x ∈ (p.workspace.chainFrom root).members.filter p.workspace.takesPart :=
    List.mem_filter.2 ⟨hx, takesPart_eq_true_iff.2 ⟨bx, hbx, henabled⟩⟩
  have hreads : x ∈ p.stackReads root := by
    unfold stackReads
    simp only [hb]
    split
    · next hshape => rwa [if_pos (hheads.2 hshape)]
    · next hshape => exact absurd hshape hheads.1
    · exact hmember
  have hmain : x ∈ p.mainReads :=
    List.mem_flatMap.2 ⟨root, p.workspace.topBlocks_perm.mem_iff.2 hroot, hreads⟩
  obtain ⟨es, hpath, hclosed, hcodes⟩ := path_of_mainBody h
  have hshows : p.mainBody.Shows "" x (Text.HasLine "") := mainBody_shows hmain
  obtain ⟨fragment, hmade, -⟩ := hshows es _ hpath hclosed
  exact started_of_codeOf? (hcodes x fragment hmade)

omit h in
/-- The source ends with the main function. -/
theorem exists_source_eq (p : Project) :
    ∃ front, p.compile.source = front ++ mainFunction p.final.context p.body ++ "\n" := by
  have hsource : p.compile.source = p.layout p.final.context p.body := rfl
  have htitled : ∀ text, titled "Main Program" text = "// ------ Main Program ------\n" ++ text :=
    fun _ => rfl
  rw [hsource, layout, parts, String.intercalate_append_of_ne_nil (by simp) (List.cons_ne_nil _ _),
    String.intercalate_singleton, htitled, ← String.append_assoc]
  exact ⟨_, rfl⟩

/-- The program runs each block at most once and each enabled block of a stack of statements on the
canvas exactly once; the body of the main function is what the stacks contribute, in canvas order and
with nothing in between. The program ends with the main function: the setups, each closed by a line
end, then the body, all of them moved in by two blanks. -/
structure PrintsStacks (p : Project) : Prop where
  atMostOnce : ∀ x, p.final.started.count x ≤ 1
  once : ∀ {root x : BlockId} {b bx : Block} {ids : List BlockId}, root ∈ p.workspace.top →
    p.workspace.block? root = some b → p.HeadsStack b → p.workspace.IsStack root ids → x ∈ ids →
    p.workspace.block? x = some bx → bx.disabled = false → p.final.started.count x = 1
  perm : p.workspace.topBlocks.Perm p.workspace.top
  canvas : p.workspace.topBlocks.Pairwise fun a b =>
    p.workspace.canvasKey a ≤ p.workspace.canvasKey b
  body : ∃ texts, List.Forall₂ p.Prints p.workspace.topBlocks texts ∧ p.body = String.join texts
  source : ∃ front, p.compile.source = front ++ ("int main() \x7b\n" ++
    String.join (p.final.context.setups.values.map fun setup =>
      Text.indent (Text.closeLine setup) "  ") ++
    Text.indent p.body "  " ++ "\x7d") ++ "\n"

theorem printsStacks : p.PrintsStacks where
  atMostOnce x := List.nodup_iff_count_le_one.1 (final_started h).1 x
  once hroot hb hheads hstack hx hbx henabled :=
    List.count_eq_one_of_mem (final_started h).1
      (mem_started_of_isStack h hroot hb hheads hstack hx hbx henabled)
  perm := p.workspace.topBlocks_perm
  canvas := topBlocks_pairwise h.valid
  body := exists_printed h
  source := p.exists_source_eq

end Project

/-! ## Documents -/

/-- The program of a document, for whatever board, loses, repeats and reorders no statement. -/
theorem Document.compile_printsStacks {parse : Markup.Parser} {source : String} {d : Document}
    (h : load parse source = .ok d) (board? : Option Board) :
    compileSource parse source board? = .ok (d.project board?).compile ∧
      (d.project board?).PrintsStacks := by
  refine ⟨?_, Project.printsStacks (load_isForest h)⟩
  rw [compileSource, h]
  rfl

/-- A stack below one that was added later, a number that is plugged in nowhere, and a stack with a
disabled member. -/
def Document.scattered : Document where
  workspace :=
    { blocks := #[
        { id := "break#0", type := "break", y := 9 },
        { id := "math_number#1", type := "math_number" },
        { id := "base_delay#2", type := "base_delay", next := some 3 },
        { id := "comment#3", type := "comment", disabled := true, next := some 4 },
        { id := "break#4", type := "break" }]
      top := [0, 1, 2]
      index := [0, 1, 2, 3, 4] }
  board? := none

/-- The text of the document above. -/
def Document.scatteredText : String :=
  "<xml><block type='break' y='9'/><block type='math_number'/><block type='base_delay'>" ++
    "<next><block type='comment' disabled='true'><next><block type='break'/></next></block></next>" ++
    "</block></xml>"

theorem Document.compile_printsStacks_scattered :
    ofText scatteredText = .ok scattered ∧ (scattered.project none).PrintsStacks := by
  have h : ofText scatteredText = .ok scattered :=
    ofText_of_chars (append_eq_ofList (append_eq_ofList rfl rfl) rfl) (by decide +kernel)
  exact ⟨h, (compile_printsStacks h none).2⟩

end BlockCompiler
