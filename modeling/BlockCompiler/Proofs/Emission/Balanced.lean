import BlockCompiler.Proofs.Emission.Body
import BlockCompiler.Proofs.Emission.Function
import BlockCompiler.Proofs.Emit.Balanced

set_option autoImplicit false

/-! # Programs whose text is balanced

Where a program runs only blocks that compute, control and print, all code that it is made of is
balanced: that of every block, every function, and the main function with its setups. There is one
exception: a branch that counts to the greatest number of 64 bits has no condition left, and closes a
brace that nothing opened. -/

namespace BlockCompiler

namespace Emit

variable {p : Project} {b : Block}

/-- The only setup of these kinds seeds the random numbers. -/
theorem Allowed.of_setups {kind : Kind} {action : Action} (h : Allowed p b kind action)
    (hkind : kind ∈ plainKinds) {key : String} (hregisters : action.Registers .setups key) :
    action = .register .setups key "srand(INA + CNT);" := by
  have htable : ∀ kind ∈ plainKinds, kind ≠ .customCode ∧ kind ≠ .cardInit ∧
      usesCard kind = false ∧ ∀ key ∈ ownKeys kind, key.1 = .setups →
        (key, "srand(INA + CNT);") ∈ fixedTexts := by decide +kernel
  obtain ⟨hcustom, hinit, hcard, hseed⟩ := htable kind hkind
  cases h with
  | own text hown hfixed =>
    obtain ⟨rfl, rfl⟩ := hregisters
    rw [hfixed _ (hseed _ hown rfl)]
  | snippet text hsnippet => exact absurd hsnippet hcustom
  | mount text huses =>
    rw [hcard] at huses
    cases huses
  | remount text hremount => exact absurd hremount hinit
  | array | prototype | function => exact nomatch hregisters.1
  | inferType | setType | setLength | diagnose => exact hregisters.elim

end Emit

namespace Project

open Text Scanner

variable {p : Project}

/-- Every block that is run is of one of the kinds whose code is balanced. -/
def RunsPlain (p : Project) : Prop :=
  ∀ id ∈ p.final.started, ∃ kind ∈ Emit.plainKinds, p.isOf kind id = true

instance : Decidable p.RunsPlain := inferInstanceAs (Decidable (∀ _ ∈ _, _))

/-- Every branch that is run has one condition more than it counts, which is a number of 64 bits. -/
def CountsBranches (p : Project) : Prop :=
  ∀ id ∈ p.final.started, ∀ b ∈ p.workspace.block? id, Kind.ofName? b.type = some .branch →
    b.mutationCount "elseif" ≠ Block.greatestCount

instance : Decidable p.CountsBranches := inferInstanceAs (Decidable (∀ _ ∈ _, _))

section Forest

variable (h : p.workspace.IsForest p.workspace.top) (hplain : p.RunsPlain)
  (hcounts : p.CountsBranches)

include h

/-- A branch without a condition is not balanced if the code that it is made of is. -/
theorem countsBranches_of_isBalanced
    (hcodes : ∀ id fragment, p.codeOf? id = some fragment → fragment.IsBalanced) :
    p.CountsBranches := by
  intro id hstarted b hb hkind hcount
  obtain ⟨fragment, hcode⟩ := exists_codeOf?_of_started hstarted
  obtain ⟨b', es, hb', htook, hmade, -⟩ := path_of_codeOf? h hcode
  obtain rfl : b = b' := Option.some_inj.1 (hb.symm.trans hb')
  have hpath := htook.path
  rw [Emit.recipe_of_kind hkind] at hpath
  obtain ⟨text, rfl, hbranch⟩ := Emit.path_of_statement hpath
  exact Emit.branch_not_isBalanced p b hcount es text hbranch
    (fun x g hx => hcodes x g (hmade x g hx)) (hcodes id _ hcode)

include hplain

omit h in
/-- The kind of a block that has code. -/
theorem RunsPlain.kind {id : BlockId} {b : Block} {fragment : Fragment}
    (hcode : p.codeOf? id = some fragment) (hb : p.workspace.block? id = some b) :
    ∃ kind ∈ Emit.plainKinds, Kind.ofName? b.type = some kind := by
  obtain ⟨kind, hkind, hof⟩ := hplain id (started_of_codeOf? hcode)
  exact ⟨kind, hkind, (isOf_iff hb).1 hof⟩

include hcounts

/-- The code of every block is balanced: it is made of code that is. -/
theorem codeOf?_isBalanced {id : BlockId} {fragment : Fragment}
    (hcode : p.codeOf? id = some fragment) : fragment.IsBalanced := by
  refine codeOf?_induction h (P := fun _ fragment => fragment.IsBalanced) ?_ hcode
  intro id b es fragment hcode hb htook hmade
  obtain ⟨kind, hmem, hkind⟩ := hplain.kind hcode hb
  have hpath := htook.path
  rw [Emit.recipe_of_kind hkind] at hpath
  have hcount : kind = .branch → b.mutationCount "elseif" ≠ Block.greatestCount := by
    rintro rfl
    exact hcounts id (started_of_codeOf? hcode) b hb hkind
  exact Emit.emitter_isBalanced p b id hmem hcount es fragment hpath fun x g hx => (hmade x g hx).2

theorem statementText_isBalanced (id : BlockId) : Text.IsBalanced (p.statementText id) := by
  unfold statementText
  split
  · next text hcode => exact codeOf?_isBalanced h hplain hcounts hcode
  · exact isBalanced_empty

/-- What a block on the canvas contributes to the main function is balanced. -/
theorem isBalanced_of_prints {id : BlockId} {text : String} (hprints : p.Prints id text) :
    Text.IsBalanced text := by
  cases hprints with
  | value => exact isBalanced_empty
  | definition => exact statementText_isBalanced h hplain hcounts id
  | stack =>
    refine isBalanced_join fun text htext => ?_
    obtain ⟨x, -, rfl⟩ := List.mem_map.1 htext
    exact statementText_isBalanced h hplain hcounts x

theorem body_isBalanced : Text.IsBalanced p.body := by
  obtain ⟨texts, hprints, hbody⟩ := exists_printed h
  rw [hbody]
  generalize p.workspace.topBlocks = ids at hprints
  clear hbody
  induction hprints with
  | nil => exact isBalanced_empty
  | cons hfirst _ ih =>
    rw [String.join_cons]
    exact (isBalanced_of_prints h hplain hcounts hfirst).append ih

omit hcounts in
theorem eq_seed_of_mem_setups {key text : String}
    (hentry : (key, text) ∈ p.final.context.setups.entries) : text = "srand(INA + CNT);" := by
  obtain ⟨id, b, es, fragment, hcode, hb, htook, -, event, hevent, hwrites⟩ :=
    exists_writer h (show (key, text) ∈ (p.final.context.ledger .setups).entries from hentry) nofun
  obtain ⟨kind, hmem, hkind⟩ := hplain.kind hcode hb
  cases hwrites with
  | new =>
    have hallowed := htook.allowed_of_kind hkind (List.mem_filterMap.2 ⟨_, hevent, rfl⟩)
    exact (Action.register.inj (hallowed.of_setups hmem ⟨rfl, rfl⟩)).2.2
  | replaced =>
    have hallowed := htook.allowed_of_kind hkind (List.mem_filterMap.2 ⟨_, hevent, rfl⟩)
    cases hallowed.of_setups hmem ⟨rfl, rfl⟩

/-- A function holds balanced code. -/
theorem isBalanced_of_methods {name text : String}
    (htext : p.final.context.text? .methods name = some text) : Text.IsBalanced text := by
  obtain ⟨id, b, es, fragment, hcode, hb, htook, hcodes, event, hevent, hwrites⟩ :=
    exists_writer h (Context.mem_entries_of_text? htext) nofun
  obtain ⟨kind, hmem, hkind⟩ := hplain.kind hcode hb
  have hprocedure : kind = .procedure := by
    cases hwrites with
    | replaced hpart => cases hpart
    | new =>
      have hallowed := htook.allowed_of_kind hkind (List.mem_filterMap.2 ⟨_, hevent, rfl⟩)
      rcases hallowed.of_methods ⟨rfl, rfl⟩ with ⟨hkind, -⟩ | ⟨rfl, -⟩
      · exact hkind
      · exact absurd hmem (by decide)
  subst hprocedure
  obtain ⟨code, rfl, hpath⟩ := htook.path_procedure hkind
  obtain ⟨-, events, stack, hbody, hsub, rfl⟩ :=
    Emit.procedure_of_writes hpath htook.closed hevent hwrites
  have hstack : Text.IsBalanced stack := Emit.body_isBalanced p b "STACK" events stack hbody
    fun x g hmade => codeOf?_isBalanced h hplain hcounts (hcodes x g (hsub hmade))
  have hname := (Identifier.isInline_ofName (p.field b "NAME")).balanced
  unfold Emit.functionText Emit.functionName
  simp only [String.append_assoc]
  exact Spans.plain rfl <| hname.then <| .text ⟨.code, 0, 1⟩ rfl <| hstack.then rfl

theorem mainFunction_isBalanced : Text.IsBalanced (mainFunction p.final.context p.body) := by
  have hspaces : ∀ c ∈ Emit.indentation.toList, c = ' ' := by simp [Emit.indentation]
  have hseed : Text.IsBalanced "srand(INA + CNT);" := rfl
  have hsetups : Text.IsBalanced (String.join (p.final.context.setups.values.map fun setup =>
      Text.indent (Text.closeLine setup) Emit.indentation)) := by
    refine isBalanced_join fun text htext => ?_
    obtain ⟨setup, hmem, rfl⟩ := List.mem_map.1 htext
    obtain ⟨⟨key, _⟩, hentry, rfl⟩ := List.mem_map.1 hmem
    rw [eq_seed_of_mem_setups h hplain hentry]
    exact hseed.closeLine.indent hspaces
  have hopen : Spans start "int main() \x7b\n" ⟨.code, 0, 1⟩ := rfl
  have hclose : Spans ⟨.code, 0, 1⟩ "\x7d" start := rfl
  have hbody := (body_isBalanced h hplain hcounts).indent hspaces
  exact ((hopen.append hsetups.spans).append hbody.spans).append hclose

end Forest

end Project

/-! ## Documents -/

/-- In the program of a document that runs only blocks which compute, control and print, for whatever
board, the code of every block is balanced just if every branch has one condition more than it counts.
Then the functions are balanced as well, and so is the main function, which ends the source. -/
theorem Document.program_isBalanced {parse : Markup.Parser} {source : String} {d : Document}
    (h : load parse source = .ok d) (board? : Option Board)
    (hplain : (d.project board?).RunsPlain) :
    ((∀ id fragment, (d.project board?).codeOf? id = some fragment → fragment.IsBalanced) ↔
      (d.project board?).CountsBranches) ∧
    ((d.project board?).CountsBranches →
      (∀ name text, (d.project board?).final.context.text? .methods name = some text →
        Text.IsBalanced text) ∧
      ∃ front main, (d.project board?).compile.source = front ++ main ++ "\n" ∧
        main = Project.mainFunction (d.project board?).final.context (d.project board?).body ∧
        Text.IsBalanced main) := by
  have hforest : (d.project board?).workspace.IsForest (d.project board?).workspace.top :=
    load_isForest h
  obtain ⟨front, hsource⟩ := (d.project board?).exists_source_eq
  refine ⟨⟨Project.countsBranches_of_isBalanced hforest, fun hcounts _ _ =>
    Project.codeOf?_isBalanced hforest hplain hcounts⟩, fun hcounts => ⟨fun _ _ =>
    Project.isBalanced_of_methods hforest hplain hcounts, front, _, hsource, rfl,
    Project.mainFunction_isBalanced hforest hplain hcounts⟩⟩

/-- A document that prints a text with a quote and the start of a comment in it. -/
def Document.quoted : Document where
  workspace :=
    { blocks := #[
        { id := "console_print#0", type := "console_print", values := ⟨[("MESSAGE", 1)]⟩ },
        { id := "string_type_block#1", type := "string_type_block"
          fields := ⟨[("TEXT", "\\\")/*")]⟩ }]
      top := [0]
      index := [0, 1] }
  board? := none

/-- The text of the document above. -/
def Document.quotedText : String :=
  "<xml><block type='console_print'><value name='MESSAGE'><block type='string_type_block'>" ++
    "<field name='TEXT'>\\\")/*</field></block></value></block></xml>"

/-- A document with a branch that counts to the greatest number. -/
def Document.miscounted : Document where
  workspace :=
    { blocks := #[
        { id := "controls_if#0", type := "controls_if"
          mutation := ⟨[("elseif", "18446744073709551615")]⟩ }]
      top := [0]
      index := [0] }
  board? := none

/-- The text of the document above. -/
def Document.miscountedText : String :=
  "<xml><block type='controls_if'><mutation elseif='18446744073709551615'/></block></xml>"

/-- The first document has a balanced main function. In the second one a block has code that is not
balanced. -/
theorem Document.program_isBalanced_miscounted :
    (ofText quotedText = .ok quoted ∧ ∃ front main,
      (quoted.project none).compile.source = front ++ main ++ "\n" ∧ Text.IsBalanced main) ∧
    ofText miscountedText = .ok miscounted ∧ (miscounted.project none).RunsPlain ∧
    ∃ id fragment, (miscounted.project none).codeOf? id = some fragment ∧ ¬fragment.IsBalanced := by
  have hquoted : ofText quotedText = .ok quoted :=
    ofText_of_chars (append_eq_ofList rfl rfl) (by decide +kernel)
  have hmiscounted : ofText miscountedText = .ok miscounted := ofText_of_chars rfl (by decide +kernel)
  have hplain : (miscounted.project none).RunsPlain := by decide +kernel
  obtain ⟨-, hbalanced⟩ := program_isBalanced hquoted none (by decide +kernel)
  obtain ⟨-, front, main, hsource, -, hmain⟩ := hbalanced (by decide +kernel)
  obtain ⟨hcodes, -⟩ := program_isBalanced hmiscounted none hplain
  refine ⟨⟨hquoted, front, main, hsource, hmain⟩, hmiscounted, hplain, ?_⟩
  by_contra hnone
  have hcounts : ¬(miscounted.project none).CountsBranches := by decide +kernel
  refine hcounts (hcodes.1 fun id fragment hcode => ?_)
  by_contra hfragment
  exact hnone ⟨id, fragment, hcode, hfragment⟩

end BlockCompiler
