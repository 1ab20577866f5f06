import BlockCompiler.Proofs.Context
import BlockCompiler.Proofs.Document.Forest
import BlockCompiler.Proofs.Document.Text
import BlockCompiler.Proofs.Emission.Ownership
import BlockCompiler.Proofs.Emit.Message

set_option autoImplicit false

/-! # Programs without cycles

Two messages tell of a cycle. Over a forest neither is ever recorded: no stack runs into itself, and
since a block comes after the one that reads it, all blocks that are being made come before the one
that is asked for, so none is asked for again. -/

namespace BlockCompiler

/-! ## Messages -/

/-- The messages that tell of a cycle. -/
def cycleMessages : List String := [Emit.cyclicMessage, "Block is connected to itself; skipped."]

/-- No diagnostic tells of a cycle. -/
def Emission.IsAcyclic (s : Emission) : Prop :=
  ∀ d ∈ s.context.diagnostics, d.message ∉ cycleMessages

theorem IsPlainMessage.not_mem_cycleMessages {message : String} (h : IsPlainMessage message) :
    message ∉ cycleMessages := by
  intro hmem
  rcases List.mem_cons.1 hmem with heq | hmem
  · exact h.ne (c := 'C') rfl (by decide) heq
  · exact h.ne (c := 'B') rfl (by decide) (List.mem_singleton.1 hmem)

theorem onlyOneMessage_not_mem_cycleMessages (label : String) :
    Emit.onlyOneMessage label ∉ cycleMessages := by
  have hhead := Emit.head?_onlyOneMessage label
  intro hmem
  rcases List.mem_cons.1 hmem with heq | hmem
  · rw [heq] at hhead
    cases hhead
  · rw [List.mem_singleton.1 hmem] at hhead
    cases hhead

/-! ## Emission -/

namespace Project

open Workspace

variable {p : Project} {roots : List BlockId}

/-- An action that a recipe takes over a forest records no cycle. -/
theorem perform_isAcyclic (h : p.workspace.IsForest roots) {id : BlockId} {b : Block}
    (hb : p.workspace.block? id = some b) {action : Action} (hallowed : p.Allows b action)
    {s : Emission} (hs : s.IsAcyclic) : (s.perform action).2.IsAcyclic := by
  intro d hd
  rcases Emission.mem_perform_diagnostics hd with hd | rfl
  · exact hs d hd
  · rcases hallowed.of_diagnose with ⟨kind, -, hremark⟩ | hunknown
    · rcases hremark.cyclic_or_onlyOne_or_isPlain with
        ⟨-, socket, head, hhead, hrepeated⟩ | ⟨label, -, hlabel⟩ | hplain
      · have ht := (target?_of_block? hb (.statement socket)).trans hhead
        exact absurd (h.chainFrom_spec (h.ascends ht).2).ends hrepeated
      · rw [hlabel]
        exact onlyOneMessage_not_mem_cycleMessages label
      · exact hplain.not_mem_cycleMessages
    · rw [hunknown]
      exact (Emit.isPlainMessage_unknown b).not_mem_cycleMessages

/-- Code keeps a state without cycles if all blocks that are being made come before. -/
def KeepsAcyclic : Law := fun id s _ t =>
  (∀ j : Nat, j ∈ s.active → j < id) → s.IsAcyclic → t.IsAcyclic

/-- The code of a block that comes after all blocks that are being made records no cycle. -/
theorem emit_isAcyclic (h : p.workspace.IsForest roots) (id : BlockId) (s : Emission)
    (hs : s.Nested p.workspace) : KeepsAcyclic id s (p.emit id s).1 (p.emit id s).2 := by
  refine (emit_induction KeepsAcyclic ?_ ?_ ?_ id s hs).2
  · exact fun id s _ _ hacyclic => hacyclic
  · intro id b s _ hid hbefore _
    exact absurd (hbefore id hid) (Nat.lt_irrefl id)
  · intro id b s es fragment t hb hid htook hsteps hbefore hacyclic
    refine hsteps.invariant (I := Emission.IsAcyclic) ?_ ?_ (fun s hs => hs) hacyclic
    · exact fun action haction s => perform_isAcyclic h hb (htook.allowed action haction)
    · intro x hx s fragment t hactive hlaw hs
      have hreads : p.Reads id x := ⟨b, hb, htook.asked.subset hx⟩
      refine hlaw ?_ hs
      rw [hactive]
      exact before_of_reads h hbefore hreads

/-- A program over a forest never tells of a cycle. -/
theorem compile_isAcyclic (h : p.workspace.IsForest p.workspace.top) :
    ∀ d ∈ p.compile.diagnostics, d.message ∉ cycleMessages := by
  obtain ⟨es, -, hsteps, -, -, hallowed⟩ := final_steps (emit_isAcyclic h)
  rw [compile_diagnostics]
  refine hsteps.invariant (I := Emission.IsAcyclic) ?_ ?_ (fun s hs => hs) nofun
  · intro action haction s hs d hd
    rcases Emission.mem_perform_diagnostics hd with hd | rfl
    · exact hs d hd
    · cases hallowed _ haction with
      | cyclic hhead hrepeated _ =>
        have hvalid := h.valid _ (p.workspace.topBlocks_perm.mem_iff.1 hhead)
        exact absurd (h.chainFrom_spec hvalid).ends hrepeated
  · intro x _ s fragment t hactive hlaw hs
    refine hlaw (fun j hj => ?_) hs
    rw [hactive] at hj
    cases hj

end Project

/-! ## Documents -/

/-- The workspace of a document is a forest whose roots are the heads of its stacks, so that its
program, for whatever board, never tells of a cycle. -/
theorem Document.compile_acyclic {parse : Markup.Parser} {source : String} {d : Document}
    (h : load parse source = .ok d) :
    d.workspace.IsForest d.workspace.top ∧
      ∀ board? : Option Board, ∃ program, compileSource parse source board? = .ok program ∧
        ∀ diagnostic ∈ program.diagnostics,
          diagnostic.message ≠ "Cyclic statement chain; stopped here." ∧
            diagnostic.message ≠ "Block is connected to itself; skipped." := by
  have hforest := load_isForest h
  refine ⟨hforest, fun board? => ⟨(d.project board?).compile, ?_, fun diagnostic hmem => ?_⟩⟩
  · rw [compileSource, h]
    rfl
  · have hmessage := Project.compile_isAcyclic (p := d.project board?) hforest diagnostic hmem
    simpa [cycleMessages, Emit.cyclicMessage] using hmessage

/-- A run of pins with a pause below that was written over: block 1 hangs nowhere, and block 0 was
brought into its form. -/
def Document.overwritten : Document where
  workspace :=
    { blocks := #[
        { id := "set_pins#0", type := "set_pins", next := some 2
          fields := ⟨[("ACTION", "STATE"), ("START_PIN", "0"), ("END_PIN", "0"), ("P0", "0")]⟩ },
        { id := "base_delay#1", type := "base_delay" },
        { id := "break#2", type := "break" }]
      top := [0]
      index := [1, 2, 0] }
  board? := none

/-- The text of the document above. -/
def Document.overwrittenText : String :=
  "<xml><block type='set_pins'><next><block type='base_delay'/></next>" ++
    "<next><block type='break'/></next></block></xml>"

theorem Document.compile_acyclic_overwritten :
    ofText overwrittenText = .ok overwritten ∧
      overwritten.workspace.IsForest overwritten.workspace.top ∧
      ∀ board? : Option Board, ∃ program, compileText overwrittenText board? = .ok program ∧
        ∀ diagnostic ∈ program.diagnostics,
          diagnostic.message ≠ "Cyclic statement chain; stopped here." ∧
            diagnostic.message ≠ "Block is connected to itself; skipped." := by
  have h : ofText overwrittenText = .ok overwritten :=
    ofText_of_chars (append_eq_ofList rfl rfl) (by decide +kernel)
  exact ⟨h, compile_acyclic h⟩

end BlockCompiler
