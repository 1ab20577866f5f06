import BlockCompiler.Proofs.Document.Index
import BlockCompiler.Proofs.Emission.Function
import BlockCompiler.Proofs.Emit.Stored

set_option autoImplicit false

/-! # Diagnostics in the program

The code of a block shows what its recipe records and what the code shows that the recipe got, and so
on up to the main function. On the way a diagnostic is lost only with code that some block leaves out: a
value in a stack, statements in place of a value, or the stack of a function that is refused. All other
diagnostics are shown by the program, as long as they keep to one line. -/

namespace BlockCompiler

open Text Comment

namespace Project

variable {p : Project} {d : Diagnostic}

/-! ## Messages -/

theorem endsVisibly_of_mem_diagnostics (hd : d ∈ p.compile.diagnostics) :
    Emit.EndsVisibly d.message := by
  rcases recorded_of_mem_diagnostics hd with hcyclic | ⟨b, rfl⟩ | ⟨id, b, es, fragment, -, htook, hmem⟩
  · exact ⟨'.', by decide, hcyclic ▸ by decide⟩
  · exact ⟨'.', by decide, by rw [selfConnectedWarning_message]; decide⟩
  · have haction : .diagnose d ∈ Event.actions es := List.mem_filterMap.2 ⟨_, hmem, rfl⟩
    rcases (htook.allowed _ haction).of_diagnose with ⟨kind, -, hremark⟩ | hunknown
    · exact hremark.endsVisibly
    · rw [hunknown]
      exact Emit.endsVisibly_unknown b

/-- A message of the program stands on one line if it has no line feed. -/
theorem isOneLine_of_mem_diagnostics (hd : d ∈ p.compile.diagnostics)
    (hline : '\n' ∉ d.message.toList) : d.IsOneLine := by
  obtain ⟨c, hc, hlast⟩ := endsVisibly_of_mem_diagnostics hd
  have hvisible : isBlank c = false ∧ c ≠ '*' := by
    simp only [List.mem_cons, List.not_mem_nil, or_false] at hc
    rcases hc with rfl | rfl | rfl <;> exact ⟨rfl, by decide⟩
  exact ⟨hline, c, hlast, hvisible⟩

/-! ## Layout -/

theorem isShown_titled {text : String} (h : d.IsShown text) (title : String) :
    d.IsShown (titled title text) := by
  have htitle : IsClosed ("// ------ " ++ title ++ " ------\n") := .of_end _ rfl
  exact h.append_left htitle

/-- What a part of the program shows is shown by the program. -/
theorem isShown_of_mem_parts {part : String} (hpart : part ∈ p.parts p.final.context p.body)
    (h : d.IsShown part) : d.IsShown p.compile.source := by
  have hparts : d.IsShown ("\n\n".intercalate (p.parts p.final.context p.body)) :=
    .intercalate rfl hpart h
  exact hparts.append_right "\n"

/-- What an entry of a section shows is shown by the program. -/
theorem isShown_of_entry {title separator text : String} {texts : List String}
    (hpart : ∀ part ∈ titledUnlessEmpty title separator texts, part ∈ p.parts p.final.context p.body)
    (hseparator : endsLine separator = true) (htext : text ∈ texts) (h : d.IsShown text) :
    d.IsShown p.compile.source := by
  have htitled : titledUnlessEmpty title separator texts =
      [titled title (separator.intercalate texts)] := by
    refine if_neg fun hempty => ?_
    rw [List.isEmpty_iff.1 hempty] at htext
    cases htext
  rw [htitled] at hpart
  refine isShown_of_mem_parts (hpart _ List.mem_cons_self) (isShown_titled ?_ title)
  exact .intercalate hseparator htext h

theorem isShown_of_function {key name stack : String}
    (htext : p.final.context.text? .methods key = some (Emit.functionText name stack))
    (h : d.IsShown stack) : d.IsShown p.compile.source := by
  have hopening : IsClosed ("void " ++ name ++ "() \x7b\n") := .of_end _ rfl
  refine isShown_of_entry (mem_parts_methods _ _) rfl (List.mem_map_of_mem (mem_values_of_text? htext)) ?_
  rw [Emit.trimmedRight_functionText]
  exact (h.append_left hopening).append_right _

theorem isShown_of_main (h : d.IsShown (mainFunction p.final.context p.body)) :
    d.IsShown p.compile.source :=
  isShown_of_mem_parts (by simp [parts]) (isShown_titled h "Main Program")

theorem isClosed_setups (c : Context) : IsClosed (String.join (c.setups.values.map fun setup =>
    Text.indent (closeLine setup) Emit.indentation)) := by
  have hclosed : ∀ texts : List String, IsClosed (String.join (texts.map fun setup =>
      Text.indent (closeLine setup) Emit.indentation)) := by
    intro texts
    induction texts with
    | nil => exact .inl String.join_nil
    | cons text texts ih =>
      rw [List.map_cons, String.join_cons]
      exact ((Emit.isClosed_closeLine text).indent _).append ih
  exact hclosed _

theorem isShown_of_body (hd : d.IsOneLine) (h : d.IsShown p.body) : d.IsShown p.compile.source := by
  have hspaces : ∀ c ∈ Emit.indentation.toList, c = ' ' := by simp [Emit.indentation]
  have hopening : IsClosed "int main() \x7b\n" := .inr rfl
  refine isShown_of_main (Diagnostic.IsShown.append_right ?_ _)
  exact (h.indent hd hspaces).append_left (hopening.append (isClosed_setups _))

theorem isShown_of_setup {key text : String}
    (htext : p.final.context.text? .setups key = some text) (h : Holds d.note text) :
    d.IsShown p.compile.source := by
  obtain ⟨before, after, hsetups⟩ := List.append_of_mem (mem_values_of_text? htext)
  have hclosed : Holds d.note (closeLine text) := by
    unfold closeLine
    split
    · exact h
    · exact h.append_right _
  have hjoin : Holds d.note (String.join (p.final.context.setups.values.map fun setup =>
      Text.indent (closeLine setup) Emit.indentation)) := by
    have hvalues : p.final.context.setups.values = before ++ text :: after := hsetups
    rw [hvalues, List.map_append, List.map_cons, String.join_append, String.join_cons]
    exact ((hclosed.indent _).append_right _).append_left _
  exact isShown_of_main (.inr (((hjoin.append_left _).append_right _).append_right _))

/-! ## Sound code -/

theorem emitter_of_stores {id : BlockId} {b : Block} {kind : Kind}
    (hkind : ¬kind ≠ .procedure ∨ Emit.setupKey? kind ≠ none) :
    ∃ code, Emit.emitter p id b kind = .statement code := by
  rcases hkind with hprocedure | hkey
  · obtain rfl := not_not.1 hprocedure
    exact ⟨_, rfl⟩
  · cases kind with
    | soundInit | cardInit | driveInit => exact ⟨_, rfl⟩
    | _ => exact absurd rfl hkey

/-- Of sound code sound code is made. -/
theorem isSound_of_took (hd : d.IsOneLine) {id : BlockId} {b : Block} {es : List Event}
    {fragment : Fragment} (htook : p.Took id b es fragment)
    (hmade : ∀ j g, .made j g ∈ es → g.IsSound) : fragment.IsSound := by
  refine ⟨(p.recipe_meets id b es fragment htook.path htook.closed).2.2, ?_⟩
  by_cases hplain : ∀ kind, Kind.ofName? b.type = some kind →
      kind ≠ .procedure ∧ Emit.setupKey? kind = none
  · exact (Emit.recipe_conveys p b hd id hplain es fragment htook.path hmade).1
  · -- a kind that stores code yields statements
    obtain ⟨kind, hkind, hstores⟩ : ∃ kind, Kind.ofName? b.type = some kind ∧
        (¬kind ≠ .procedure ∨ Emit.setupKey? kind ≠ none) := by
      simpa only [not_forall, not_and_or, exists_prop] using hplain
    obtain ⟨code, hcode⟩ : ∃ code, Emit.emitter p id b kind = .statement code :=
      emitter_of_stores hstores
    have hpath := htook.path
    rw [Emit.recipe_of_kind hkind, hcode] at hpath
    obtain ⟨text, rfl, -⟩ := Emit.path_of_statement hpath
    exact nofun

/-! ## Code that is lost -/

/-- The code of a block is lost: it is a value in a stack on the canvas; or the block that reads it
leaves it out, or is a function that is refused; or the code of that block is lost. -/
inductive Lost (p : Project) : BlockId → Prop
  | unplugged {x : BlockId} {found : Operand} :
    x ∈ p.mainReads → p.codeOf? x = some (.expression found) → Lost p x
  | leftOut {id x : BlockId} {b : Block} {fragment : Fragment} :
    p.workspace.block? id = some b → p.codeOf? x = some fragment → p.LeavesOut b x fragment → Lost p x
  | refused {id x : BlockId} {b : Block} {code : String} :
    p.workspace.block? id = some b → Kind.ofName? b.type = some .procedure →
    p.codeOf? id = some (.statement code) → code ≠ "" → x ∈ p.filled b (.stack "STACK") → Lost p x
  | within {id x : BlockId} : p.Reads id x → Lost p id → Lost p x

/-- The diagnostic is recorded by the recipe of a block that was started. -/
def Records (p : Project) (x : BlockId) (d : Diagnostic) : Prop :=
  ∃ b es fragment, p.workspace.block? x = some b ∧ p.Took x b es fragment ∧
    p.codeOf? x = some fragment ∧ .did (.diagnose d) () ∈ es

section Forest

variable (h : p.workspace.IsForest p.workspace.top) (hd : d.IsOneLine)

include h

theorem codeOf?_isSound (hd : d.IsOneLine) {id : BlockId} {fragment : Fragment}
    (hcode : p.codeOf? id = some fragment) : fragment.IsSound :=
  codeOf?_induction h (P := fun _ g => g.IsSound)
    (fun _ _ _ _ _ _ htook hmade => isSound_of_took hd htook fun j g hg => (hmade j g hg).2) hcode

/-- All code that is asked for is sound. -/
theorem isSound_of_asked (hd : d.IsOneLine) {events : List Event} {entries : List Entry}
    (hchronicle : p.Chronicle events entries .empty p.final) {x : BlockId} {g : Fragment}
    (hasked : .made x g ∈ happened events entries) : g.IsSound :=
  codeOf?_isSound h hd (hchronicle.codeOf?_of_asked h hasked)

/-- A stack in a socket records nothing itself. -/
theorem not_diagnose_of_body {id : BlockId} {b : Block} {socket : String} {es : List Event}
    {text : String} (hb : p.workspace.block? id = some b)
    (hbody : (Emit.body p b socket).Path es text) (hclosed : ∀ e ∈ es, e.IsClosed) :
    .did (.diagnose d) () ∉ es := by
  have hmeets : (Emit.body p b socket).Meets (p.filled b (.stack socket)) (fun _ => False) IsClosed := by
    refine Emit.body_meets p b socket fun head hhead hrepeated => ?_
    have ht := (Workspace.target?_of_block? hb (.statement socket)).trans hhead
    exact absurd (h.chainFrom_spec (h.ascends ht).2).ends hrepeated
  intro hmem
  exact (hmeets es text hbody hclosed).2.1 _ (List.mem_filterMap.2 ⟨_, hmem, rfl⟩)

/-! ## From code to the code around it -/

/-- What a path tells of is shown by its code or by the program, or it was got from a block whose code
is lost. -/
def Passes (p : Project) (d : Diagnostic) (fragment : Fragment) (event : Event) : Prop :=
  fragment.Shows d ∨ d.IsShown p.compile.source ∨ ∃ x g, event = .made x g ∧ p.Lost x

section Took

variable {id : BlockId} {b : Block} {es : List Event} {fragment : Fragment} {event : Event}
  (hb : p.workspace.block? id = some b) (htook : p.Took id b es fragment)
  (hcode : p.codeOf? id = some fragment) (hmade : ∀ x g, .made x g ∈ es → g.IsSound)
  (hevent : event ∈ es) (htells : event.Tells d fun x g => ¬p.LeavesOut b x g)

include hb htook hcode hmade hevent htells

/-- The stack of a function is shown by the function, unless that is refused. -/
theorem passes_of_procedure (hd : d.IsOneLine) (hkind : Kind.ofName? b.type = some .procedure)
    (hstays : ∀ key text, .did (.register .methods key text) true ∈ es →
      p.final.context.text? .methods key = some text) : p.Passes d fragment event := by
  obtain ⟨code, rfl, hpath⟩ := htook.path_procedure hkind
  obtain ⟨events, stack, isNew, isNew', rest, hbody, hes, hend⟩ := Emit.procedure_events hpath
  have hevents : ∀ e ∈ events, e ∈ es := fun e he => hes ▸ List.mem_append_left _ he
  have hrest : ∀ e ∈ rest, e ∈ es := fun e he => by simp [hes, he]
  have hstack : ∀ e ∈ events, e.Tells d (fun x g => ¬p.LeavesOut b x g) → d.IsShown stack :=
    fun e he htold => ((Emit.body_conveys p b hd "STACK" events stack hbody fun x g hg =>
      hmade x g (hevents _ hg)).2 (.inr ⟨e, he, htold⟩)).resolve_left not_false
  rw [hes] at hevent
  simp only [List.mem_append, List.mem_cons] at hevent
  rcases hevent with hevent | rfl | rfl | hevent
  · rcases hend with ⟨rfl, -, -⟩ | ⟨-, d', rfl, -⟩
    · -- the function is new and holds the stack
      have hfunction := hstays (Emit.functionName p b) (Emit.functionText (Emit.functionName p b) stack)
        (by simp [hes])
      exact .inr (.inl (isShown_of_function hfunction (hstack event hevent htells)))
    · cases event with
      | made x g =>
        refine .inr (.inr ⟨x, g, rfl, .refused hb hkind hcode d'.comment_ne_empty ?_⟩)
        have hmeets : (Emit.body p b "STACK").Meets (p.filled b (.stack "STACK")) (fun _ => True)
            IsClosed := Emit.body_meets p b "STACK" fun _ _ _ _ _ => trivial
        have hasked := (hmeets events stack hbody fun e he => htook.closed e (hevents e he)).1
        exact hasked.subset (List.mem_filterMap.2 ⟨_, hevent, rfl⟩)
      | did action answer =>
        obtain rfl : action = .diagnose d := htells
        exact absurd hevent (not_diagnose_of_body h hb hbody fun e he => htook.closed e (hevents e he))
      | drew n => cases htells
  · cases htells
  · cases htells
  · -- the warning about the function is its code
    rcases hend with ⟨-, -, rfl⟩ | ⟨-, d', rfl, rfl⟩
    · cases hevent
    · obtain rfl := List.mem_singleton.1 hevent
      obtain rfl := Action.diagnose.inj htells
      exact .inl (Diagnostic.isShown_comment _)

end Took

section Chronicle

variable {events : List Event} {entries : List Entry} {e : Entry} {event : Event}
  (hmain : ∀ action ∈ Event.actions events, p.MainAllows action)
  (hindexed : p.workspace.Indexed) (hchronicle : p.Chronicle events entries .empty p.final)
  (he : e ∈ entries) {kind : Kind} {key : String}
  (hkind : Kind.ofName? e.block.type = some kind) (hkey : Emit.setupKey? kind = some key)

include hchronicle he

theorem mem_ran_of_entry (hkind : Kind.ofName? e.block.type = some kind) : e.id ∈ p.ran kind :=
  mem_ran.2 ⟨started_of_codeOf? (hchronicle.codeOf?_of_mem h he),
    (isOf_iff (hchronicle.took e he).1).2 hkind⟩

theorem has_of_entry (hindexed : p.workspace.Indexed)
    (hkind : Kind.ofName? e.block.type = some kind) : p.has kind = true := by
  have htakes := (of_mem_started h (started_of_codeOf? (hchronicle.codeOf?_of_mem h he))).1
  obtain ⟨b, hb, henabled⟩ := Workspace.takesPart_eq_true_iff.1 htakes
  obtain rfl := Option.some_inj.1 (hb.symm.trans (hchronicle.took e he).1)
  have hcontains := hindexed.containsType hb henabled
  rwa [← Kind.ofName?_eq_some_iff.1 hkind] at hcontains

include hmain hindexed hkind hkey

/-- An initializer that sets up is the only block that writes its statement. -/
theorem mem_events_of_writes {label text : String}
    (hlabel : Emit.initializerLabel? kind = some label) (hlate : p.isLate kind e.id = false)
    (hevent : event ∈ happened events entries) (hwrites : event.Writes .setups key text) :
    event ∈ e.events := by
  obtain ⟨action, answer, rfl, hregisters⟩ : ∃ action answer, event = .did action answer ∧
      action.Registers .setups key := by
    cases hwrites with
    | new => exact ⟨_, _, rfl, rfl, rfl⟩
    | replaced => exact ⟨_, _, rfl, rfl, rfl⟩
  rcases mem_happened.1 hevent with hevent | ⟨e', he', hevent⟩
  · cases hmain action (List.mem_filterMap.2 ⟨_, hevent, rfl⟩) with
    | library => exact nomatch hregisters.1
    | cyclic => exact hregisters.elim
  obtain ⟨hb', htook'⟩ := hchronicle.took e' he'
  have haction : action ∈ Event.actions e'.events := List.mem_filterMap.2 ⟨_, hevent, rfl⟩
  have hallowed := htook'.allowed action haction
  unfold Allows at hallowed
  split at hallowed
  swap
  · obtain ⟨d', rfl, -⟩ := hallowed
    exact hregisters.elim
  next kind' hkind' =>
  rcases hallowed.eq_of_setupKey p e'.block hkey hregisters with rfl | ⟨rfl, hnone⟩
  · have hlate' : p.isLate kind' e'.id = false := by
      rw [Bool.eq_false_iff]
      intro hlate'
      rw [(Emit.path_of_late hkind' hlabel hlate' htook'.path).1] at haction
      obtain rfl := List.mem_singleton.1 haction
      exact hregisters
    have hhead := head?_of_not_late h (mem_ran_of_entry h hchronicle he hkind) hlate
    have hhead' := head?_of_not_late h (mem_ran_of_entry h hchronicle he' hkind') hlate'
    have hid : e'.id = e.id := Option.some_inj.1 (hhead'.symm.trans hhead)
    rwa [← List.inj_on_of_nodup_map (hchronicle.nodup h) he' he hid]
  · rw [has_of_entry h hchronicle he hindexed hkind] at hnone
    cases hnone

/-- What an initializer is told is shown by the statement that it stores, or by its warning. -/
theorem passes_of_setup (hd : d.IsOneLine) (hevent : event ∈ e.events)
    (htells : event.Tells d fun x g => ¬p.LeavesOut e.block x g) : p.Passes d e.fragment event := by
  obtain ⟨label, hlabel⟩ : ∃ label, Emit.initializerLabel? kind = some label := by
    cases kind with
    | soundInit | cardInit | driveInit => exact ⟨_, rfl⟩
    | _ => cases hkey
  obtain ⟨hb, htook⟩ := hchronicle.took e he
  have hmade : ∀ x g, .made x g ∈ e.events → g.IsSound := fun x g hmem =>
    isSound_of_asked h hd hchronicle (mem_happened.2 (.inr ⟨e, he, hmem⟩))
  cases hlate : p.isLate kind e.id with
  | true =>
    have hpath := htook.path
    rw [Emit.recipe_of_initializer hkind hlabel, Emit.initializer_of_late hlate] at hpath
    have hwarning : Emit.EmitterShows p e.block d
        (.statement (Recipe.warning e.block (Emit.onlyOneMessage label))) :=
      Emit.shows_diagnose p e.block _ _ _
    exact .inl ((hwarning.fragment p e.block e.events e.fragment hpath hmade).2
      (.inr ⟨event, hevent, htells⟩))
  | false =>
    obtain ⟨code, -, hpath⟩ := Emit.path_of_not_late hkind hlabel hlate htook.path
    obtain ⟨⟨action, haction, hregisters⟩, hheld⟩ :=
      Emit.setUp_stores p e.block hd hkey e.events code hpath hmade (.inr ⟨event, hevent, htells⟩)
    obtain ⟨event', hevent', heq⟩ := List.mem_filterMap.1 haction
    obtain ⟨answer, rfl⟩ : ∃ answer, event' = .did action answer := by
      cases event' with
      | did action' answer =>
        obtain rfl : action' = action := Option.some_inj.1 heq
        exact ⟨answer, rfl⟩
      | _ => cases heq
    have hhas := (hchronicle.has .setups key).2
      (.inr ⟨action, answer, mem_happened.2 (.inr ⟨e, he, hevent'⟩), hregisters⟩)
    obtain ⟨text, htext⟩ := Option.isSome_iff_exists.1 hhas
    rcases hchronicle.written .setups key text (Context.mem_entries_of_text? htext) with
      hempty | ⟨writer, hwriter, hwrites⟩
    · cases hempty
    · have hmem := mem_events_of_writes h hmain hindexed hchronicle he hkind hkey hlabel hlate
        hwriter hwrites
      exact .inr (.inl (isShown_of_setup htext (hheld writer hmem text hwrites)))

omit hkind hkey in
/-- What the path of a block tells of is shown by its code or by the program, or it was got from a block
whose code is lost. -/
theorem passes_of_entry (hd : d.IsOneLine) (hevent : event ∈ e.events)
    (htells : event.Tells d fun x g => ¬p.LeavesOut e.block x g) : p.Passes d e.fragment event := by
  obtain ⟨hb, htook⟩ := hchronicle.took e he
  have hhappened : ∀ event ∈ e.events, event ∈ happened events entries := fun event hevent =>
    mem_happened.2 (.inr ⟨e, he, hevent⟩)
  have hmade : ∀ x g, .made x g ∈ e.events → g.IsSound := fun x g hmem =>
    isSound_of_asked h hd hchronicle (hhappened _ hmem)
  by_cases hprocedure : Kind.ofName? e.block.type = some .procedure
  · exact passes_of_procedure h hb htook (hchronicle.codeOf?_of_mem h he) hmade hevent htells hd
      hprocedure fun key text hmem => hchronicle.stays .methods key text nofun (hhappened _ hmem)
  by_cases hsetup : ∃ kind key, Kind.ofName? e.block.type = some kind ∧ Emit.setupKey? kind = some key
  · obtain ⟨kind, key, hkind, hkey⟩ := hsetup
    exact passes_of_setup h hmain hindexed hchronicle he hkind hkey hd hevent htells
  · refine .inl ((Emit.recipe_conveys p e.block hd e.id ?_ e.events e.fragment htook.path hmade).2
      (.inr ⟨event, hevent, htells⟩))
    intro kind hkind
    refine ⟨fun heq => hprocedure (heq ▸ hkind), ?_⟩
    exact Option.eq_none_iff_forall_ne_some.2 fun key hkey => hsetup ⟨kind, key, hkind, hkey⟩

end Chronicle

end Forest

/-! ## The main function -/

/-- The main function leaves out values. -/
def UsedInMain (_ : BlockId) (g : Fragment) : Prop := ∀ found, g ≠ .expression found

theorem stackCode_conveys {told : Prop} (id : BlockId) :
    (p.stackCode id).Conveys d UsedInMain told IsClosed fun text => told ∨ d.IsShown text := by
  have hchain : (Emit.chain p id).Conveys d UsedInMain told IsClosed
      fun text => told ∨ d.IsShown text :=
    Emit.chain_conveys p fun _ _ _ found hused => hused found rfl
  have hdefinition : (definitionCode id).Conveys d UsedInMain told IsClosed
      fun text => told ∨ d.IsShown text := by
    refine Recipe.Conveys.code.bind fun g hg => ?_
    cases g with
    | statement text => exact .pure hg.closed (Or.imp_right And.left)
    | expression found => exact .pure isClosed_empty (Or.imp_right fun hused => absurd rfl (hused.2 found))
  unfold stackCode
  split
  · exact .pure isClosed_empty .inl
  · split
    · split
      · exact hchain
      · exact hdefinition
    · exact .pure isClosed_empty .inl
    · exact hchain

theorem mainBody_conveys : p.mainBody.Conveys d UsedInMain False (fun _ => True) d.IsShown := by
  refine Recipe.Conveys.ensure.bind fun _ _ => ?_
  refine (Recipe.Conveys.concat fun r hr told => ?_).mono (fun _ _ => trivial) fun _ => Or.rec
    False.elim id
  obtain ⟨id, -, rfl⟩ := List.mem_map.1 hr
  exact stackCode_conveys id

/-! ## Shown or lost -/

section Forest

variable (h : p.workspace.IsForest p.workspace.top) (hd : d.IsOneLine)

include h hd

/-- What happened on some path tells of the diagnostic: the main function shows it unless it leaves the
code out. -/
theorem isShown_of_mainEvent {events : List Event} {entries : List Entry} {event : Event}
    (hpath : p.mainBody.Path events p.body) (hchronicle : p.Chronicle events entries .empty p.final)
    (hevent : event ∈ events) (htells : event.Tells d UsedInMain) : d.IsShown p.compile.source := by
  have hmade : ∀ x g, .made x g ∈ events → g.IsSound := fun x g hmem =>
    isSound_of_asked h hd hchronicle (mem_happened.2 (.inl hmem))
  exact isShown_of_body hd ((mainBody_conveys events p.body hpath hmade).2
    (.inr ⟨event, hevent, htells⟩))

variable (hindexed : p.workspace.Indexed)

include hindexed

/-- What the code of a block shows is shown by the program, unless the code is lost. -/
theorem isShown_or_lost {id : BlockId} {fragment : Fragment} (hcode : p.codeOf? id = some fragment)
    (hshows : fragment.Shows d) : d.IsShown p.compile.source ∨ p.Lost id := by
  obtain ⟨events, entries, hpath, hclosed, hmain, hchronicle⟩ := final_chronicle h
  -- from a block to the one that reads it, which comes before
  induction hn : id using Nat.strongRecOn generalizing id fragment with
  | ind n ih =>
  subst hn
  obtain ⟨e, he, hid, hfragment⟩ := hchronicle.exists_entry hcode
  have hasked : .made id fragment ∈ happened events entries :=
    (hchronicle.asked id fragment).2 ⟨e, he, hid, hfragment⟩
  rcases mem_happened.1 hasked with hasked | ⟨e', he', hasked⟩
  · cases fragment with
    | statement text =>
      have htells : Event.Tells d UsedInMain (.made id (.statement text)) := ⟨hshows, nofun⟩
      exact .inl (isShown_of_mainEvent h hd hpath hchronicle hasked htells)
    | expression found =>
      have hreads : id ∈ p.mainReads := (p.mainBody_meets events p.body hpath hclosed).1.subset
        (List.mem_filterMap.2 ⟨_, hasked, rfl⟩)
      exact .inr (.unplugged hreads hcode)
  · obtain ⟨hb', htook'⟩ := hchronicle.took e' he'
    have hreads : p.Reads e'.id id :=
      ⟨e'.block, hb', htook'.asked.subset (List.mem_filterMap.2 ⟨_, hasked, rfl⟩)⟩
    by_cases hleft : p.LeavesOut e'.block id fragment
    · exact .inr (.leftOut hb' hcode hleft)
    rcases passes_of_entry h hmain hindexed hchronicle he' hd hasked ⟨hshows, hleft⟩ with
      houter | hshown | ⟨x, g, heq, hlost⟩
    · exact (ih e'.id (lt_of_reads h hreads) (hchronicle.codeOf?_of_mem h he') houter rfl).imp_right
        (.within hreads)
    · exact .inl hshown
    · cases heq
      exact .inr hlost

/-- A diagnostic of a program on one line is shown by the program, or it is recorded by a block whose
code is lost. -/
theorem isShown_or_recordedLost (hmem : d ∈ p.compile.diagnostics) :
    d.IsShown p.compile.source ∨ ∃ x, p.Records x d ∧ p.Lost x := by
  obtain ⟨events, entries, hpath, hclosed, hmain, hchronicle⟩ := final_chronicle h
  rcases hchronicle.diagnosed d hmem with hempty | hevent
  · cases hempty
  rcases mem_happened.1 hevent with hevent | ⟨e, he, hevent⟩
  · exact .inl (isShown_of_mainEvent h hd hpath hchronicle hevent rfl)
  · have hcode := hchronicle.codeOf?_of_mem h he
    obtain ⟨hb, htook⟩ := hchronicle.took e he
    rcases passes_of_entry h hmain hindexed hchronicle he hd hevent rfl with
      hshows | hshown | ⟨x, g, heq, -⟩
    · refine (isShown_or_lost h hd hindexed hcode hshows).imp_right fun hlost => ?_
      exact ⟨e.id, ⟨e.block, e.events, e.fragment, hb, htook, hcode, hevent⟩, hlost⟩
    · exact .inl hshown
    · cases heq

end Forest

end Project

/-! ## Documents -/

namespace Document

/-- A diagnostic of the program of a document, for whatever board, is shown in the program by a comment
line, or by a block comment where a value was expected, if it keeps to one line; unless it is recorded
by a block whose code is lost. -/
theorem shows_unless_lost {parse : Markup.Parser} {source : String} {d : Document}
    (h : load parse source = .ok d) (board? : Option Board) {diagnostic : Diagnostic}
    (hmem : diagnostic ∈ (d.project board?).compile.diagnostics)
    (hline : '\n' ∉ diagnostic.message.toList) :
    diagnostic.IsShown (d.project board?).compile.source ∨
      ∃ x, (d.project board?).Records x diagnostic ∧ (d.project board?).Lost x :=
  Project.isShown_or_recordedLost (load_isForest h)
    (Project.isOneLine_of_mem_diagnostics hmem hline) (load_indexed h) hmem

/-- A document with a value in a stack. -/
def unplugged : Document where
  workspace :=
    { blocks := #[
        { id := "break#0", type := "break", next := some 1 },
        { id := "array_get#1", type := "array_get", fields := ⟨[("VAR", "x")]⟩ }]
      top := [0]
      index := [0, 1]
      variableNames := ["x"] }
  board? := none

/-- The text of the document above. -/
def unpluggedText : String :=
  "<xml><block type='break'><next><block type='array_get'><field name='VAR'>x</field></block>" ++
    "</next></block></xml>"

/-- What the value says of an array that is missing. -/
def unpluggedError : Diagnostic :=
  { severity := .error, blockId := "array_get#1", blockType := "array_get"
    message := "The array \"x\" has not been initialized!" }

theorem shows_not_unplugged : ofText unpluggedText = .ok unplugged ∧
    unpluggedError ∈ (unplugged.project none).compile.diagnostics ∧
    ¬unpluggedError.IsShown (unplugged.project none).compile.source ∧
    ∃ x, (unplugged.project none).Records x unpluggedError ∧ (unplugged.project none).Lost x := by
  have h : ofText unpluggedText = .ok unplugged :=
    ofText_of_chars (append_eq_ofList rfl rfl) (by decide +kernel)
  have hmem : unpluggedError ∈ (unplugged.project none).compile.diagnostics := by decide +kernel
  have hline : '\n' ∉ unpluggedError.message.toList := by decide +kernel
  have hcomment : ¬unpluggedError.comment.toList <:+: (unplugged.project none).compile.source.toList := by
    decide +kernel
  have hnote : ¬unpluggedError.note <:+: (unplugged.project none).compile.source.toList := by
    decide +kernel
  have hnot : ¬unpluggedError.IsShown (unplugged.project none).compile.source := by
    rintro (⟨before, lead, rest, htext, -⟩ | hholds)
    · exact hcomment ⟨before ++ lead, rest, by rw [htext]; simp⟩
    · exact hnote hholds.part_infix
  exact ⟨h, hmem, hnot, (shows_unless_lost h none hmem hline).resolve_left hnot⟩

end Document

end BlockCompiler
