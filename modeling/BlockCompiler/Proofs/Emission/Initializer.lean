import BlockCompiler.Proofs.Document.Forest
import BlockCompiler.Proofs.Document.Text
import BlockCompiler.Proofs.Emission.History
import BlockCompiler.Proofs.Emission.Once
import BlockCompiler.Proofs.Emit.Initializer

set_option autoImplicit false

/-! # Which initializer takes effect

Of the initializers of a kind that a program starts, those that come late in program order are replaced
by a warning each. Program order follows every link, also those of blocks that do not take part in the
program; so its first initializer need not be among the ones that are started. The first one that is
started takes effect just if it is. -/

namespace BlockCompiler

namespace Emit

/-! ## Labels -/

theorem initializer_cases {kind : Kind} {label : String}
    (h : initializerLabel? kind = some label) :
    (kind, label) ∈ [(Kind.pwmStart, "PWM initialize"), (.soundInit, "sound initialize"),
      (.cardInit, "SD initialize"), (.driveInit, "Robot initialize")] := by
  cases kind with
  | pwmStart | soundInit | cardInit | driveInit =>
    cases h
    decide
  | _ => cases h

/-- A label belongs to one kind. -/
theorem kind_of_label {kind kind' : Kind} {label : String}
    (h : initializerLabel? kind = some label) (h' : initializerLabel? kind' = some label) :
    kind = kind' := by
  have hmem := initializer_cases h
  have hmem' := initializer_cases h'
  simp only [List.mem_cons, Prod.mk.injEq, List.not_mem_nil, or_false] at hmem hmem'
  rcases hmem with ⟨rfl, rfl⟩ | ⟨rfl, rfl⟩ | ⟨rfl, rfl⟩ | ⟨rfl, rfl⟩ <;> simp at hmem' <;>
    exact hmem'.symm

theorem onlyOneMessage_injective {label label' : String}
    (h : onlyOneMessage label = onlyOneMessage label') : label = label' := by
  have hchars := congrArg String.toList h
  simp only [onlyOneMessage, String.toList_append, List.append_assoc] at hchars
  have hlabels := List.append_cancel_right (List.append_cancel_left hchars)
  exact String.toList_injective hlabels

end Emit

namespace Project

variable {p : Project} {kind : Kind} {label : String}

/-- A block is of a kind. -/
def isOf (p : Project) (kind : Kind) (id : BlockId) : Bool :=
  (p.workspace.block? id).any (·.type == kind.name)

theorem isOf_iff {id : BlockId} {b : Block} (hb : p.workspace.block? id = some b) :
    p.isOf kind id = true ↔ Kind.ofName? b.type = some kind := by
  rw [isOf, hb, Option.any_some, beq_iff_eq, Kind.ofName?_eq_some_iff]
  exact eq_comm

/-- The blocks of a kind whose recipes are started, in turn. -/
def ran (p : Project) (kind : Kind) : List BlockId := p.final.started.reverse.filter (p.isOf kind)

/-! ## Warnings -/

/-- The messages about second initializers of a kind. -/
def isOnlyOne (label : String) (d : Diagnostic) : Bool := d.message == Emit.onlyOneMessage label

theorem isOnlyOne_of_isPlain {d : Diagnostic} (h : IsPlainMessage d.message) :
    isOnlyOne label d = false :=
  beq_eq_false_iff_ne.2 (h.ne (Emit.head?_onlyOneMessage label) (by decide))

theorem isOnlyOne_of_head? {d : Diagnostic} {message : String} {c : Char}
    (hmessage : d.message = message) (hhead : message.toList.head? = some c) (hc : c ≠ 'O') :
    isOnlyOne label d = false := by
  refine beq_eq_false_iff_ne.2 fun heq => hc ?_
  rw [← hmessage, heq, Emit.head?_onlyOneMessage] at hhead
  exact (Option.some_inj.1 hhead).symm

/-- The diagnostics that actions record and that are about second initializers. -/
def onlyOnes (label : String) (actions : List Action) : List Diagnostic :=
  (actions.filterMap Action.diagnostic?).filter (isOnlyOne label)

theorem onlyOnes_append (actions actions' : List Action) :
    onlyOnes label (actions ++ actions') = onlyOnes label actions ++ onlyOnes label actions' := by
  rw [onlyOnes, List.filterMap_append, List.filter_append]
  rfl

theorem onlyOnes_eq_nil {actions : List Action}
    (h : ∀ d, .diagnose d ∈ actions → isOnlyOne label d = false) : onlyOnes label actions = [] := by
  unfold onlyOnes
  rw [List.filter_eq_nil_iff]
  intro d hd
  obtain ⟨action, haction, heq⟩ := List.mem_filterMap.1 hd
  cases action with
  | diagnose d' =>
    cases heq
    simp [h d haction]
  | _ => cases heq

/-- A recipe records the warning about a second initializer just if its block is a late one. -/
theorem onlyOnes_entry (hlabel : Emit.initializerLabel? kind = some label) {e : Entry}
    (hb : p.workspace.block? e.id = some e.block)
    (htook : p.Took e.id e.block e.events e.fragment) :
    onlyOnes label e.actions =
      if p.isOf kind e.id && p.isLate kind e.id then [Emit.lateWarning label e.block] else [] := by
  -- a block of another kind has another label, and one that is not late sets up
  cases hof : p.isOf kind e.id with
  | false =>
    refine onlyOnes_eq_nil ?_
    intro d hd
    rcases (htook.allowed _ hd).of_diagnose with ⟨kind', hkind', hremark⟩ | hunknown
    · rcases hremark.cyclic_or_onlyOne_or_isPlain with ⟨hcyclic, -⟩ | ⟨label', hlabel', honly⟩ |
        hplain
      · exact isOnlyOne_of_head? (c := 'C') hcyclic rfl (by decide)
      · unfold isOnlyOne
        rw [beq_eq_false_iff_ne]
        intro heq
        obtain rfl := Emit.onlyOneMessage_injective (honly.symm.trans heq)
        obtain rfl := Emit.kind_of_label hlabel hlabel'
        rw [(isOf_iff hb).2 hkind'] at hof
        cases hof
      · exact isOnlyOne_of_isPlain hplain
    · exact isOnlyOne_of_isPlain (hunknown ▸ Emit.isPlainMessage_unknown e.block)
  | true =>
    have hkind := (isOf_iff hb).1 hof
    cases hlate : p.isLate kind e.id with
    | false =>
      obtain ⟨text, -, hpath⟩ := Emit.path_of_not_late hkind hlabel hlate htook.path
      obtain ⟨plan, hmeets⟩ := Emit.setUp_meets p e.block kind
      obtain ⟨-, hquiet, -⟩ := hmeets _ _ hpath htook.closed
      refine onlyOnes_eq_nil fun d hd => isOnlyOne_of_isPlain ?_
      rw [hquiet _ hd d rfl]
      exact Emit.isPlainMessage_noValue
    | true =>
      obtain ⟨hactions, -⟩ := Emit.path_of_late hkind hlabel hlate htook.path
      rw [Entry.actions, hactions]
      simp [onlyOnes, Action.diagnostic?, isOnlyOne, Emit.lateWarning]

theorem onlyOnes_entries (hlabel : Emit.initializerLabel? kind = some label) {entries : List Entry}
    (htook : ∀ e ∈ entries,
      p.workspace.block? e.id = some e.block ∧ p.Took e.id e.block e.events e.fragment) :
    onlyOnes label (entries.flatMap Entry.actions) =
      (((entries.map Entry.id).filter fun id => p.isOf kind id && p.isLate kind id).filterMap
        p.workspace.block?).map (Emit.lateWarning label) := by
  induction entries with
  | nil => rfl
  | cons e entries ih =>
    obtain ⟨hb, he⟩ := htook e List.mem_cons_self
    rw [List.flatMap_cons, onlyOnes_append, onlyOnes_entry hlabel hb he,
      ih fun e' he' => htook e' (List.mem_cons_of_mem e he'), List.map_cons]
    cases hlate : p.isOf kind e.id && p.isLate kind e.id with
    | false => simp only [List.filter_cons, hlate]; rfl
    | true => simp only [List.filter_cons, hlate, if_true, List.filterMap_cons, hb]; rfl

/-- The warnings about second initializers are those of the late ones that were started, once for
each. -/
theorem warnings_perm (hlabel : Emit.initializerLabel? kind = some label) :
    (p.compile.diagnostics.filter (isOnlyOne label)).Perm
      ((((p.ran kind).filter (p.isLate kind)).filterMap p.workspace.block?).map
        (Emit.lateWarning label)) := by
  obtain ⟨entries, actions, hhistory, hactions⟩ := p.final_history
  have hmain : onlyOnes label actions = [] := by
    refine onlyOnes_eq_nil ?_
    intro d hd
    rcases hactions _ hd with hallows | ⟨b, heq⟩
    · cases hallows with
      | cyclic _ _ hmessage => exact isOnlyOne_of_head? (c := 'C') hmessage rfl (by decide)
    · obtain rfl : d = selfConnectedWarning b := Action.diagnose.inj heq
      exact isOnlyOne_of_head? (c := 'B') (selfConnectedWarning_message b) rfl (by decide)
  have hdiagnostics := hhistory.diagnostics.filter (isOnlyOne label)
  have hstarted : p.final.started.reverse.Perm (entries.map Entry.id) :=
    (List.reverse_perm _).trans hhistory.started_perm
  rw [compile_diagnostics]
  refine hdiagnostics.trans ?_
  have hflat : (Emission.empty.context.diagnostics ++
      (actions ++ entries.flatMap Entry.actions).filterMap Action.diagnostic?).filter
        (isOnlyOne label) = onlyOnes label (actions ++ entries.flatMap Entry.actions) := rfl
  rw [hflat, onlyOnes_append, hmain, List.nil_append, onlyOnes_entries hlabel hhistory.took]
  rw [ran, List.filter_filter]
  refine List.Perm.map _ (List.Perm.filterMap _ ?_)
  simp only [Bool.and_comm (p.isLate kind _)]
  exact (hstarted.filter _).symm

/-! ## Code -/

theorem mem_ran {id : BlockId} : id ∈ p.ran kind ↔ id ∈ p.final.started ∧ p.isOf kind id = true := by
  rw [ran, List.mem_filter, List.mem_reverse]

theorem codeOf?_of_late (hlabel : Emit.initializerLabel? kind = some label) {id : BlockId}
    (hof : p.isOf kind id = true) (hlate : p.isLate kind id = true) {fragment : Fragment}
    (hcode : p.codeOf? id = some fragment) :
    ∃ b, p.workspace.block? id = some b ∧
      fragment = .statement (Emit.lateWarning label b).comment := by
  obtain ⟨b, es, hb, htook⟩ := took_of_codeOf? hcode
  exact ⟨b, hb, (Emit.path_of_late ((isOf_iff hb).1 hof) hlabel hlate htook.path).2⟩

theorem codeOf?_of_not_late (hlabel : Emit.initializerLabel? kind = some label) {id : BlockId}
    (hof : p.isOf kind id = true) (hlate : p.isLate kind id = false) {fragment : Fragment}
    (hcode : p.codeOf? id = some fragment) :
    ∃ text, fragment = .statement text ∧ Emit.IsSetUp kind text := by
  obtain ⟨b, es, hb, htook⟩ := took_of_codeOf? hcode
  obtain ⟨text, rfl, hpath⟩ :=
    Emit.path_of_not_late ((isOf_iff hb).1 hof) hlabel hlate htook.path
  obtain ⟨plan, hmeets⟩ := Emit.setUp_meets p b kind
  exact ⟨text, rfl, (hmeets _ _ hpath htook.closed).2.2⟩

/-! ## The first one -/

/-- Of the initializers of a kind that were started, `first` takes effect and the `others` do not: the
code of each is its warning, which is recorded once for each. -/
structure TakesEffectAlone (p : Project) (label : String) (first : BlockId)
    (others : List BlockId) : Prop where
  effective : ∃ b fragment, p.workspace.block? first = some b ∧ p.codeOf? first = some fragment ∧
    fragment ≠ .statement (Emit.lateWarning label b).comment
  replaced : ∀ id ∈ others, ∃ b, p.workspace.block? id = some b ∧
    p.codeOf? id = some (.statement (Emit.lateWarning label b).comment)
  recorded : (p.compile.diagnostics.filter fun d => d.message == Emit.onlyOneMessage label).Perm
    ((others.filterMap p.workspace.block?).map (Emit.lateWarning label))

variable (h : p.workspace.IsForest p.workspace.top)

include h

theorem ran_nodup (kind : Kind) : (p.ran kind).Nodup :=
  (List.nodup_reverse.2 (final_started h).1).filter _

/-- An initializer that is started is in program order. -/
theorem mem_inOrder_of_mem_ran {id : BlockId} (hid : id ∈ p.ran kind) : id ∈ p.inOrder kind := by
  obtain ⟨hstarted, hof⟩ := mem_ran.1 hid
  obtain ⟨htakes, hreached⟩ := of_mem_started h hstarted
  obtain ⟨b, hb, henabled⟩ := Workspace.takesPart_eq_true_iff.1 htakes
  refine List.mem_filter.2 ⟨hreached, ?_⟩
  rw [isOf, hb, Option.any_some] at hof
  simp only [Workspace.isEnabled, hb, henabled, hof, Bool.not_false, Bool.and_self]

omit h in
theorem isLate_of_head? {first : BlockId} (hhead : (p.inOrder kind).head? = some first)
    (id : BlockId) : p.isLate kind id = (first != id) := by
  rw [isLate, hhead, Option.any_some]

omit h in
theorem not_isLate_of_head? {first : BlockId} (hhead : (p.inOrder kind).head? = some first) :
    p.isLate kind first = false := by
  rw [isLate_of_head? hhead, bne_self_eq_false]

/-- An initializer that is started and not late comes first in program order. -/
theorem head?_of_not_late {id : BlockId} (hid : id ∈ p.ran kind) (hlate : p.isLate kind id = false) :
    (p.inOrder kind).head? = some id := by
  obtain ⟨first, hhead⟩ : ∃ first, (p.inOrder kind).head? = some first :=
    Option.ne_none_iff_exists'.1 fun hnone =>
      List.ne_nil_of_mem (mem_inOrder_of_mem_ran h hid) (List.head?_eq_none_iff.1 hnone)
  rw [isLate_of_head? hhead] at hlate
  rw [hhead, show first = id by simpa using hlate]

/-- The first initializer that is started takes effect alone just if it is the first in program
order. -/
theorem takesEffectAlone_iff (hlabel : Emit.initializerLabel? kind = some label) {first : BlockId}
    {others : List BlockId} (hran : p.ran kind = first :: others) :
    p.TakesEffectAlone label first others ↔ (p.inOrder kind).head? = some first := by
  have hfirst : first ∈ p.ran kind := hran ▸ List.mem_cons_self
  obtain ⟨hstarted, hof⟩ := mem_ran.1 hfirst
  obtain ⟨fragment, hcode⟩ := exists_codeOf?_of_started hstarted
  constructor
  · rintro ⟨⟨b, fragment', hb, hcode', heffective⟩, -, -⟩
    refine head?_of_not_late h hfirst (Bool.eq_false_iff.2 fun hlate => heffective ?_)
    obtain ⟨b', hb', hwarning⟩ := codeOf?_of_late hlabel hof hlate hcode'
    obtain rfl := Option.some_inj.1 (hb.symm.trans hb')
    exact hwarning
  · intro hhead
    have hlate := isLate_of_head? hhead
    obtain ⟨hfresh, -⟩ := List.nodup_cons.1 (hran ▸ ran_nodup h kind)
    -- with the first one in program order first, all the others are late
    have hothers : (p.ran kind).filter (p.isLate kind) = others := by
      rw [hran, List.filter_cons_of_neg (by simp [hlate])]
      rw [List.filter_eq_self]
      intro id hid
      rw [hlate]
      exact bne_iff_ne.2 fun heq => hfresh (heq ▸ hid)
    refine ⟨?_, fun id hid => ?_, ?_⟩
    · obtain ⟨text, rfl, htext⟩ := codeOf?_of_not_late hlabel hof (not_isLate_of_head? hhead) hcode
      obtain ⟨b, es, hb, -⟩ := took_of_codeOf? hcode
      refine ⟨b, _, hb, hcode, fun heq => ?_⟩
      exact htext.ne_comment _ (Fragment.statement.inj heq)
    · obtain ⟨hstarted', hof'⟩ := mem_ran.1 (hran ▸ List.mem_cons_of_mem first hid)
      obtain ⟨fragment', hcode'⟩ := exists_codeOf?_of_started hstarted'
      have hlate' : p.isLate kind id = true := by
        rw [hlate]
        exact bne_iff_ne.2 fun heq => hfresh (heq ▸ hid)
      obtain ⟨b, hb, rfl⟩ := codeOf?_of_late hlabel hof' hlate' hcode'
      exact ⟨b, hb, hcode'⟩
    · have hperm := warnings_perm (p := p) hlabel
      rwa [hothers] at hperm

end Project

/-! ## Documents -/

/-- Of the initializers of a kind that the program of a document starts, the first takes effect and
all others yield their warning once, just if the first one is also the first in program order. -/
theorem Document.takesEffectAlone_iff_head {parse : Markup.Parser} {source : String}
    {d : Document} (h : load parse source = .ok d) (board? : Option Board) {kind : Kind} {label : String}
    (hlabel : Emit.initializerLabel? kind = some label) {first : BlockId} {others : List BlockId}
    (hran : (d.project board?).ran kind = first :: others) :
    (d.project board?).TakesEffectAlone label first others ↔
      ((d.project board?).inOrder kind).head? = some first :=
  Project.takesEffectAlone_iff (load_isForest h) hlabel hran

/-- A document whose first initializer in program order stands in a disabled loop. -/
def Document.overshadowed : Document where
  workspace :=
    { blocks := #[
        { id := "controls_repeat#0", type := "controls_repeat", disabled := true
          statements := ⟨[("DO", 1)]⟩ },
        { id := "pwm_start#1", type := "pwm_start" },
        { id := "pwm_start#2", type := "pwm_start" }]
      top := [0, 2]
      index := [0, 1, 2] }
  board? := none

/-- The text of the document above. -/
def Document.overshadowedText : String :=
  "<xml><block type='controls_repeat' disabled='true'>" ++
    "<statement name='DO'><block type='pwm_start'/></statement></block>" ++
    "<block type='pwm_start'/></xml>"

theorem Document.ofText_overshadowedText : ofText overshadowedText = .ok overshadowed :=
  ofText_of_chars (append_eq_ofList (append_eq_ofList rfl rfl) rfl) (by decide +kernel)

/-- The only initializer that is started does not take effect. -/
theorem Document.not_takesEffectAlone_overshadowed :
    ofText overshadowedText = .ok overshadowed ∧
      (overshadowed.project none).ran .pwmStart = [2] ∧
      ¬(overshadowed.project none).TakesEffectAlone "PWM initialize" 2 [] := by
  have hran : (overshadowed.project none).ran .pwmStart = [2] := by decide +kernel
  have hhead : ((overshadowed.project none).inOrder .pwmStart).head? ≠ some 2 := by decide +kernel
  exact ⟨ofText_overshadowedText, hran,
    (takesEffectAlone_iff_head ofText_overshadowedText none rfl hran).not.2 hhead⟩

end BlockCompiler
