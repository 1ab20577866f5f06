import BlockCompiler.Proofs.Context
import BlockCompiler.Proofs.Emission.History
import BlockCompiler.Proofs.Emit.Speech
import BlockCompiler.Proofs.Text.Passage

set_option autoImplicit false

/-! # Statements in place of values

Carrying out a recipe adds what its path records behind the diagnostics that are there already, whatever
blocks are active. So statements in place of a value are never dropped in silence, with one exception: a
text of the user that starts as a diagnostic does is taken for one. -/

namespace BlockCompiler

/-- A way to make code yields closed code, and keeps the diagnostics that are recorded already. -/
structure MakesCode (code : BlockId → Emission → Fragment × Emission) : Prop where
  closed : ∀ id s, (code id s).1.IsClosed
  adds : ∀ id s, s.context.diagnostics <+: (code id s).2.context.diagnostics

namespace MakesCode

variable {code : BlockId → Emission → Fragment × Emission} (h : MakesCode code) {α : Type}

include h

/-- Carrying out a recipe takes one of its paths, and adds what the path records. -/
theorem run_path (r : Recipe α) (s : Emission) :
    ∃ es new, r.Path es (r.run code s).1 ∧ (∀ e ∈ es, e.IsClosed) ∧
      (r.run code s).2.context.diagnostics = s.context.diagnostics ++ new ∧
      ∀ d, Event.records d ∈ es → d ∈ new := by
  induction r generalizing s with
  | done a => exact ⟨[], [], .done a, nofun, (List.append_nil _).symm, nofun⟩
  | act action next ih =>
    obtain ⟨es, new, hpath, hclosed, hnew, hrecords⟩ := ih (s.perform action).1 (s.perform action).2
    refine ⟨_, action.diagnostic?.toList ++ new, .act _ hpath, ?_, ?_, fun d hd => ?_⟩
    · exact List.forall_mem_cons.2 ⟨trivial, hclosed⟩
    · rw [← List.append_assoc, ← Emission.perform_diagnostics]
      exact hnew
    · rcases List.mem_cons.1 hd with heq | hd
      · obtain rfl : action = .diagnose d := by
          injection heq with haction
          exact haction.symm
        exact List.mem_append_left _ List.mem_cons_self
      · exact List.mem_append_right _ (hrecords d hd)
  | emit id next ih =>
    obtain ⟨added, hadded⟩ := h.adds id s
    obtain ⟨es, new, hpath, hclosed, hnew, hrecords⟩ := ih (code id s).1 (code id s).2
    refine ⟨_, added ++ new, .emit _ hpath, ?_, ?_, fun d hd => ?_⟩
    · exact List.forall_mem_cons.2 ⟨h.closed id s, hclosed⟩
    · rw [← List.append_assoc, hadded]
      exact hnew
    · exact List.mem_append_right _ (hrecords d ((List.mem_cons.1 hd).resolve_left nofun))
  | fresh next ih =>
    obtain ⟨es, new, hpath, hclosed, hnew, hrecords⟩ := ih s.names { s with names := s.names + 1 }
    refine ⟨_, new, .fresh _ hpath, ?_, hnew, fun d hd => ?_⟩
    · exact List.forall_mem_cons.2 ⟨trivial, hclosed⟩
    · exact hrecords d ((List.mem_cons.1 hd).resolve_left nofun)
  | overflow next ih =>
    obtain ⟨es, new, hpath, hclosed, hnew, hrecords⟩ := ih s
    exact ⟨es, new, .overflow hpath, hclosed, hnew, hrecords⟩

/-- A recipe that speaks up is heard. -/
theorem run_speaks {said own : Diagnostic → Prop} {yields quiet : α → Prop} {r : Recipe α}
    (hr : r.Speaks said own yields quiet) (s : Emission) :
    yields (r.run code s).1 ∧ ∃ new,
      (r.run code s).2.context.diagnostics = s.context.diagnostics ++ new ∧
        ((∃ d ∈ new, own d) ∨ quiet (r.run code s).1) := by
  obtain ⟨es, new, hpath, hclosed, hnew, hrecords⟩ := h.run_path r s
  obtain ⟨-, hyields, hspeaks⟩ := hr es _ hpath hclosed
  refine ⟨hyields, new, hnew, hspeaks.imp_left ?_⟩
  rintro ⟨d, hd, hown⟩
  exact ⟨d, hrecords d hd, hown⟩

end MakesCode

namespace Project

variable (p : Project)

theorem emitWithin_makesCode (depth : Nat) : MakesCode (p.emitWithin depth) := by
  have hself : ∀ code b s, ((selfConnected b).run code s).1.IsClosed ∧
      s.context.diagnostics <+: ((selfConnected b).run code s).2.context.diagnostics := by
    intro code b s
    have hadds := Emission.perform_diagnostics s (.diagnose (selfConnectedWarning b))
    exact ⟨Emit.isClosed_comment _, _, hadds.symm⟩
  have hboth : ∀ id s, (p.emitWithin depth id s).1.IsClosed ∧
      s.context.diagnostics <+: (p.emitWithin depth id s).2.context.diagnostics := by
    induction depth with
    | zero =>
      intro id s
      unfold emitWithin
      split
      · exact ⟨Text.isClosed_empty, List.prefix_rfl⟩
      · exact hself _ _ s
    | succ depth ih =>
      intro id s
      unfold emitWithin
      split
      · exact ⟨Text.isClosed_empty, List.prefix_rfl⟩
      · next b hb =>
        split
        · exact hself _ b s
        · have hcode : MakesCode (p.emitWithin depth) := ⟨fun id s => (ih id s).1, fun id s => (ih id s).2⟩
          obtain ⟨es, new, hpath, hclosed, hnew, -⟩ := hcode.run_path (Emit.recipe p id b) (s.enter id)
          exact ⟨(p.recipe_meets id b es _ hpath hclosed).2.2, new, hnew.symm⟩
  exact ⟨fun id s => (hboth id s).1, fun id s => (hboth id s).2⟩

theorem emit_makesCode : MakesCode p.emit := p.emitWithin_makesCode _

variable {p} {id : BlockId} {b : Block}

/-- The code of a block that is not being made is that of its recipe, whatever is active. -/
theorem emit_of_free (hb : p.workspace.block? id = some b) {s : Emission} (hid : id ∉ s.active) :
    p.emit id s =
      (((Emit.recipe p id b).run (p.emitWithin p.workspace.size) (s.enter id)).1,
        ((Emit.recipe p id b).run (p.emitWithin p.workspace.size) (s.enter id)).2.leave id
          ((Emit.recipe p id b).run (p.emitWithin p.workspace.size) (s.enter id)).1) := by
  unfold emit
  rw [emitWithin]
  simp only [hb, List.contains_iff_mem, hid, if_false]

/-- A block that is being made already is reported. -/
theorem emit_active_diagnostics (hb : p.workspace.block? id = some b) {s : Emission}
    (hid : id ∈ s.active) : (p.emit id s).2.context.diagnostics =
      s.context.diagnostics ++ [selfConnectedWarning b] := by
  rw [emit_of_active hb hid]
  exact Emission.perform_diagnostics s (.diagnose (selfConnectedWarning b))

/-- A text of the user is yielded as it is, and nothing is recorded. -/
theorem emit_verbatim (hb : p.workspace.block? id = some b) (h : Emit.IsVerbatim p b) {s : Emission}
    (hid : id ∉ s.active) : (p.emit id s).2.context.diagnostics = s.context.diagnostics := by
  obtain ⟨text, hrecipe⟩ := Emit.recipe_of_verbatim h id
  rw [emit_of_pure hb hid hrecipe]
  rfl

/-- Statements that are taken for a diagnostic of their block come with one, unless they are a text of
the user. -/
theorem emit_isDiagnostic (hb : p.workspace.block? id = some b) {s : Emission} {text : String}
    (hstatement : (p.emit id s).1 = .statement text) (htext : Comment.isDiagnostic text = true) :
    ∃ new, (p.emit id s).2.context.diagnostics = s.context.diagnostics ++ new ∧
      (new = [] ↔ id ∉ s.active ∧ Emit.IsVerbatim p b) ∧
      (new ≠ [] → ∃ d ∈ new, Emit.IsOwn b d) := by
  by_cases hid : id ∈ s.active
  · refine ⟨_, emit_active_diagnostics hb hid, by simp [hid], fun _ => ?_⟩
    exact ⟨_, List.mem_cons_self, rfl, rfl⟩
  · by_cases hverbatim : Emit.IsVerbatim p b
    · refine ⟨[], ?_, by simp [hid, hverbatim], fun hne => absurd rfl hne⟩
      rw [List.append_nil]
      exact emit_verbatim hb hverbatim hid
    · obtain ⟨-, new, hnew, hspeaks⟩ :=
        (p.emitWithin_makesCode _).run_speaks (Emit.recipe_speaks hverbatim id) (s.enter id)
      rw [emit_of_free hb hid] at hstatement ⊢
      rw [show ((Emit.recipe p id b).run _ _).1 = _ from hstatement] at hspeaks
      obtain ⟨d, hd, hown⟩ := hspeaks.resolve_right (by simp [Fragment.IsQuiet, htext])
      refine ⟨new, hnew, ?_, fun _ => ⟨d, hd, hown⟩⟩
      simp [hverbatim, List.ne_nil_of_mem hd]

/-! ## Values -/

/-- Statements in place of a value become a comment in front of the socket's default, and something is
recorded about their block, unless the statements are a text of the user that starts as a diagnostic
does. -/
theorem operand_reportsStatements {socket : String} {child : Block}
    (hplugged : p.plugged? b socket = some (id, child)) {s : Emission} {text : String}
    (hstatement : (p.emit id s).1 = .statement text) :
    ∃ body new, (p.run (Emit.operand p b socket) s).1 =
        some (.atom ("/* " ++ String.ofList body ++ " */ " ++ p.socketDefault b socket)) ∧
      '\n' ∉ body ∧ ¬Comment.closer <:+: body ∧
      (p.run (Emit.operand p b socket) s).2.context.diagnostics = s.context.diagnostics ++ new ∧
      (new = [] ↔ id ∉ s.active ∧ Emit.IsVerbatim p child ∧ Comment.isDiagnostic text = true) ∧
      (new ≠ [] → ∃ d ∈ new, Emit.IsOwn child d) := by
  obtain ⟨-, hchild, -⟩ := plugged?_eq_some hplugged
  have hemit : p.emit id s = (.statement text, (p.emit id s).2) := Prod.ext hstatement rfl
  have hline : ∀ comment, '\n' ∉ Comment.body comment := by
    intro comment hmem
    rcases Comment.mem_of_mem_body hmem with hspace | ⟨-, hne⟩
    · exact absurd hspace (by decide)
    · exact hne rfl
  rw [Emit.operand_of_plugged hplugged, run_bind, run_code, hemit]
  dsimp only
  cases htext : Comment.isDiagnostic text with
  | true =>
    obtain ⟨new, hnew, hempty, hown⟩ := emit_isDiagnostic hchild hstatement htext
    refine ⟨Comment.body text, new, ?_, hline text, Comment.closer_not_within_splitClosers _, hnew, ?_,
      hown⟩
    · rfl
    · simpa using hempty
  | false =>
    -- the warning about the block is recorded behind all that making its code recorded
    obtain ⟨added, hadded⟩ := p.emit_makesCode.adds id s
    let warning : Diagnostic := ⟨.warning, child.id, child.type, Emit.noValueMessage⟩
    refine ⟨Comment.body warning.comment, added ++ [warning], ?_, hline _,
      Comment.closer_not_within_splitClosers _, ?_, ?_, fun _ => ⟨warning, ?_, rfl, rfl⟩⟩
    · rfl
    · rw [← List.append_assoc, hadded]
      exact Emission.perform_diagnostics _ (.diagnose warning)
    · simp
    · exact List.mem_append_right _ List.mem_cons_self

/-- A pause of a length that is given by a comment about a warning. -/
def posing : Project where
  workspace :=
    { blocks := #[
        { id := "pause", type := "pause", values := ⟨[("PAUSE_TIME", 1)]⟩ },
        { id := "note", type := "comment", fields := ⟨[("COMMENT_TEXT", "WARNING: later")]⟩ }]
      top := [0]
      index := [0, 1] }

theorem operand_reportsStatements_posing : ∃ b child, posing.workspace.block? 0 = some b ∧
    posing.plugged? b "PAUSE_TIME" = some (1, child) ∧
    (posing.emit 1 .empty).1 = .statement "// WARNING: later\n" ∧
    (posing.run (Emit.operand posing b "PAUSE_TIME") .empty).2.context.diagnostics = [] := by
  have hplugged : posing.plugged? posing.workspace.blocks[0] "PAUSE_TIME" =
      some (1, posing.workspace.blocks[1]) := rfl
  have hcode : (posing.emit 1 .empty).1 = .statement "// WARNING: later\n" := by decide +kernel
  obtain ⟨-, new, -, -, -, hnew, hempty, -⟩ := operand_reportsStatements hplugged hcode
  have hnone : new = [] := hempty.2 ⟨List.not_mem_nil, .inl (by decide +kernel), by decide +kernel⟩
  exact ⟨_, _, rfl, hplugged, hcode, by rw [hnew, hnone]; rfl⟩

end Project

end BlockCompiler
