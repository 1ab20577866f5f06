import BlockCompiler.Proofs.Emission.Initializer
import BlockCompiler.Proofs.Emission.Laid
import BlockCompiler.Proofs.Emit.Array

set_option autoImplicit false

/-! # Whether a call has its function

A call is emitted if some enabled block of the workspace defines the function, wherever this block
stands. The function is registered when the block is run, which it never is below a disabled block,
and only if its name is still free: a snippet of custom code may have taken it. So a call has its
function just if a block that defines it is run and is not refused. -/

namespace BlockCompiler

namespace Emit

variable {p : Project} {b : Block}

/-! ## Calls -/

/-- Code of a kind of block that calls a function, on the cog that runs it or on a new one. -/
inductive CallsFunction (name : String) : Kind → String → Prop
  | direct : CallsFunction name .procedureCall (name ++ "();\n")
  | cog (size : Int) :
    CallsFunction name .newCog ("cog_run(" ++ name ++ ", " ++ toString size ++ ");\n")

/-- A direct call is no comment about a function that is missing. -/
theorem call_ne_comment {name missing : String} {d : Diagnostic}
    (hd : d.message = "The function \"" ++ missing ++ "\" has not been defined!") :
    name ++ "();\n" ≠ d.comment := by
  intro heq
  have hlists := congrArg (fun s => s.toList.reverse) heq
  simp [Diagnostic.comment, hd] at hlists

theorem cog_inj {name name' : String} {size size' : Int}
    (h : "cog_run(" ++ name ++ ", " ++ toString size ++ ");\n" =
      "cog_run(" ++ name' ++ ", " ++ toString size' ++ ");\n") : name = name' := by
  have hcall := (String.append_left_inj _).1 h
  simp only [String.append_assoc] at hcall
  have hlists := congrArg String.toList ((String.append_right_inj _).1 hcall)
  simp only [String.toList_append] at hlists
  -- numerals hold no comma or blank, so the stack sizes are the same
  have hsize : ' ' :: (toString size).toList = ' ' :: (toString size').toList := by
    refine @Text.eq_of_numerals_behind (fun c => Text.isNumeral c || c == ' ') _ _ _ _ ','
      (fun d hd => ?_) (fun d hd => ?_) rfl hlists
    · rcases List.mem_cons.1 hd with rfl | hd
      · rfl
      · simp [Text.isNumeral_of_mem_toString hd]
    · rcases List.mem_cons.1 hd with rfl | hd
      · rfl
      · simp [Text.isNumeral_of_mem_toString hd]
  have hcomma : ", ".toList ++ (toString size).toList = ", ".toList ++ (toString size').toList :=
    congrArg (',' :: ·) hsize
  rw [hcomma] at hlists
  exact String.toList_inj.1 (List.append_cancel_right hlists)

/-- A function is called only if a block of the workspace defines it. -/
theorem CallsFunction.isDefined {name : String} {kind : Kind} {text : String}
    (hcall : CallsFunction name kind text) (hkind : Kind.ofName? b.type = some kind) {id : BlockId}
    {es : List Event} (hpath : (recipe p id b).Path es (.statement text)) :
    isDefined p name = true := by
  rw [recipe_of_kind hkind] at hpath
  cases hcall with
  | direct =>
    obtain ⟨text, ⟨⟩, hcode⟩ := path_of_statement hpath
    unfold procedureCall at hcode
    dsimp only at hcode
    split at hcode
    · next hdefined =>
      obtain ⟨-, hname⟩ := hcode.of_pure
      rwa [(String.append_left_inj _).1 hname]
    · obtain ⟨d, rfl, -, hline⟩ := Recipe.Path.of_diagnose hcode
      exact absurd hline (call_ne_comment rfl)
  | cog size =>
    obtain ⟨text, ⟨⟩, hcode⟩ := path_of_statement hpath
    have hhead : ("cog_run(" ++ name ++ ", " ++ toString size ++ ");\n").toList.head? = some 'c' := by
      simp only [String.append_assoc, String.toList_append]
      rfl
    unfold newCog at hcode
    split at hcode
    · obtain ⟨d, -, -, hline⟩ := Recipe.Path.of_diagnose hcode
      exact absurd hline (d.ne_comment hhead (by decide))
    · dsimp only at hcode
      split at hcode
      · next hdefined =>
        obtain ⟨-, hname⟩ := hcode.of_pure
        rwa [cog_inj hname]
      · obtain ⟨d, -, -, hline⟩ := Recipe.Path.of_diagnose hcode
        exact absurd hline (d.ne_comment hhead (by decide))

/-! ## Definitions -/

/-- The path of a definition: that of its stack, then the prototype, then the function. A function
whose name is taken is refused with a warning. -/
theorem procedure_events {es : List Event} {text : String} (hpath : (procedure p b).Path es text) :
    ∃ stackEvents stack isNew isNew' rest, (body p b "STACK").Path stackEvents stack ∧
      es = stackEvents ++
        .did (.register .declarations (functionName p b) (prototype (functionName p b))) isNew ::
        .did (.register .methods (functionName p b) (functionText (functionName p b) stack)) isNew' ::
        rest ∧
      ((isNew' = true ∧ text = "" ∧ rest = []) ∨
        (isNew' = false ∧ ∃ d : Diagnostic, text = d.comment ∧ rest = [.did (.diagnose d) ()])) := by
  obtain ⟨stackEvents, stack, es₁, rfl, hbody, hdefine⟩ := hpath.of_bind
  obtain ⟨es₂, _, es₃, rfl, hprototype, hfunction⟩ := hdefine.of_bind
  obtain ⟨es₄, isNew, es₅, rfl, hregister, hpure⟩ := hprototype.of_bind
  obtain rfl := hregister.of_perform
  obtain ⟨rfl, -⟩ := hpure.of_pure
  obtain ⟨es₆, isNew', rest, rfl, hregister', hend⟩ := hfunction.of_bind
  obtain rfl := hregister'.of_perform
  refine ⟨stackEvents, stack, isNew, isNew', rest, hbody, rfl, ?_⟩
  cases isNew' with
  | true =>
    obtain ⟨rfl, rfl⟩ := hend.of_pure
    exact .inl ⟨rfl, rfl, rfl⟩
  | false =>
    obtain ⟨d, -, rfl, rfl⟩ := Recipe.Path.of_diagnose hend
    exact .inr ⟨rfl, d, rfl, rfl⟩

/-- The stack in a socket only records diagnostics itself. -/
theorem eq_diagnose_of_body {socket : String} {events : List Event} {stack : String}
    (hbody : (body p b socket).Path events stack) (hclosed : ∀ e ∈ events, e.IsClosed)
    {action : Action} (haction : action ∈ Event.actions events) : ∃ d, action = .diagnose d := by
  have hmeets : (body p b socket).Meets (p.filled b (.stack socket))
      (fun action => ∃ d, action = .diagnose d) Text.IsClosed :=
    body_meets p b socket fun _ _ _ d _ => ⟨d, rfl⟩
  exact (hmeets events stack hbody hclosed).2.1 action haction

/-- A definition that writes a function found its name free, so it is not refused, and the function
holds its stack. -/
theorem procedure_of_writes {es : List Event} {code key text : String}
    (hpath : (procedure p b).Path es code) (hclosed : ∀ e ∈ es, e.IsClosed) {event : Event}
    (hevent : event ∈ es) (hwrites : event.Writes .methods key text) :
    code = "" ∧ ∃ stackEvents stack, (body p b "STACK").Path stackEvents stack ∧
      stackEvents ⊆ es ∧ text = functionText (functionName p b) stack := by
  obtain ⟨events, stack, isNew, isNew', rest, hbody, rfl, hend⟩ := procedure_events hpath
  cases hwrites with
  | replaced hpart => cases hpart
  | new =>
    simp only [List.mem_append, List.mem_cons, Event.did.injEq, Action.register.injEq] at hevent
    rcases hevent with hevent | ⟨⟨hpart, -⟩, -⟩ | ⟨⟨-, -, rfl⟩, hanswer⟩ | hevent
    · obtain ⟨d, hd⟩ := eq_diagnose_of_body hbody (fun e he => hclosed e (List.mem_append_left _ he))
        (List.mem_filterMap.2 ⟨_, hevent, rfl⟩)
      cases hd
    · cases hpart
    · obtain rfl := eq_of_heq hanswer
      refine ⟨?_, events, stack, hbody, List.subset_append_left _ _, rfl⟩
      rcases hend with ⟨-, hcode, -⟩ | ⟨hnew, -⟩
      · exact hcode
      · cases hnew
    · rcases hend with ⟨-, -, rfl⟩ | ⟨-, d, -, rfl⟩
      · cases hevent
      · cases List.mem_singleton.1 hevent

/-- A function loses the line feed behind it. -/
theorem trimmedRight_functionText (name stack : String) :
    Text.trimmedRight (functionText name stack) = "void " ++ name ++ "() \x7b\n" ++ stack ++ "\x7d" := by
  have hlists : (functionText name stack).toList.reverse =
      '\n' :: '\x7d' :: ("void " ++ name ++ "() \x7b\n" ++ stack).toList.reverse := by
    simp [functionText]
  rw [Text.trimmedRight, Text.trimRight, hlists, List.dropWhile_cons_of_pos (by decide),
    List.dropWhile_cons_of_neg (by decide), List.reverse_cons, List.reverse_reverse]
  refine String.toList_inj.1 ?_
  rw [String.toList_ofList, String.toList_append (t := "\x7d")]
  rfl

/-- What registers a function defines it, or is a snippet of custom code with a name of that form. -/
theorem Allowed.of_methods {kind : Kind} {action : Action} (h : Allowed p b kind action)
    {name : String} (hregisters : action.Registers .methods name) :
    (kind = .procedure ∧ functionName p b = name) ∨
      (kind = .customCode ∧ "custom_code_" ++ b.id = name) := by
  have htable : ∀ kind ∈ Kind.all, ∀ key ∈ ownKeys kind, key.1 ≠ .methods := by decide +kernel
  cases h with
  | own text hown =>
    obtain ⟨rfl, -⟩ := hregisters
    exact absurd rfl (htable kind (Kind.mem_all kind) _ hown)
  | snippet text hkind => exact .inr ⟨hkind, hregisters.2.symm⟩
  | function stack hkind => exact .inl ⟨hkind, hregisters.2.symm⟩
  | array | prototype | mount | remount => exact nomatch hregisters.1
  | inferType | setType | setLength | diagnose => exact hregisters.elim

/-- What is registered in the section of prototypes is the prototype of its name. -/
theorem Allowed.of_declarations {kind : Kind} {action : Action} (h : Allowed p b kind action)
    {name : String} (hregisters : action.Registers .declarations name) :
    action = .register .declarations name (Emit.prototype name) := by
  have htable : ∀ kind ∈ Kind.all, ∀ key ∈ ownKeys kind, key.1 ≠ .declarations := by decide +kernel
  cases h with
  | own text hown =>
    obtain ⟨rfl, -⟩ := hregisters
    exact absurd rfl (htable kind (Kind.mem_all kind) _ hown)
  | snippet text hkind hpart =>
    obtain ⟨rfl, -⟩ := hregisters
    unfold customSection? at hpart
    split at hpart <;> cases hpart
  | prototype => rw [hregisters.2]
  | array | function | mount | remount => exact nomatch hregisters.1
  | inferType | setType | setLength | diagnose => exact hregisters.elim

end Emit

namespace Project

open Workspace

variable {p : Project}

/-- The code of a block calls a function. -/
def EmitsCall (p : Project) (id : BlockId) (name : String) : Prop :=
  ∃ b kind text, p.workspace.block? id = some b ∧ Kind.ofName? b.type = some kind ∧
    p.codeOf? id = some (.statement text) ∧ Emit.CallsFunction name kind text

/-- A block defines a function of the name. -/
def IsDefinition (p : Project) (name : String) (x : BlockId) : Prop :=
  ∃ b, p.workspace.block? x = some b ∧ Kind.ofName? b.type = some .procedure ∧
    Emit.functionName p b = name

/-- A snippet of custom code bears the name. -/
def IsSnippet (p : Project) (name : String) (x : BlockId) : Prop :=
  ∃ b, p.workspace.block? x = some b ∧ Kind.ofName? b.type = some .customCode ∧
    "custom_code_" ++ b.id = name

/-- The program defines a function by a block that was run and not refused: the function around the
code of the block's own stack is registered and stands in the section of functions, and so does its
prototype in the section of prototypes. -/
structure DefinesBy (p : Project) (name : String) (x : BlockId) : Prop where
  isDefinition : p.IsDefinition name x
  accepted : p.codeOf? x = some (.statement "")
  function : ∃ b events stack, p.workspace.block? x = some b ∧
    (Emit.body p b "STACK").Path events stack ∧
    (∀ y fragment, .made y fragment ∈ events → p.codeOf? y = some fragment) ∧
    p.final.context.text? .methods name = some (Emit.functionText name stack) ∧
    p.Lists "Functions" "\n\n" ("void " ++ name ++ "() \x7b\n" ++ stack ++ "\x7d")
  prototype : p.final.context.text? .declarations name = some (Emit.prototype name) ∧
    p.Lists "Function Declarations" "\n" (Emit.prototype name)

section Took

variable {id : BlockId} {b : Block} {es : List Event} {fragment : Fragment}
  (htook : p.Took id b es fragment) (hkind : Kind.ofName? b.type = some .procedure)

include htook hkind

theorem Took.path_procedure :
    ∃ text, fragment = .statement text ∧ (Emit.procedure p b).Path es text := by
  have hpath := htook.path
  rw [Emit.recipe_of_kind hkind] at hpath
  exact Emit.path_of_statement hpath

/-- A definition registers its prototype and its function, whether or not the name is free. -/
theorem Took.registers_procedure {part : Section} (hpart : part = .declarations ∨ part = .methods) :
    ∃ action ∈ Event.actions es, action.Registers part (Emit.functionName p b) := by
  obtain ⟨text, -, hprocedure⟩ := htook.path_procedure hkind
  obtain ⟨events, stack, isNew, isNew', rest, -, rfl, -⟩ := Emit.procedure_events hprocedure
  rw [Event.actions_append]
  rcases hpart with rfl | rfl
  · exact ⟨_, List.mem_append_right _ List.mem_cons_self, rfl, rfl⟩
  · exact ⟨_, List.mem_append_right _ (List.mem_cons_of_mem _ List.mem_cons_self), rfl, rfl⟩

end Took

/-- A function is called only if an enabled block defines it. -/
theorem isDefined_of_emitsCall {id : BlockId} {name : String} (hcall : p.EmitsCall id name) :
    Emit.isDefined p name = true := by
  obtain ⟨b, kind, text, hb, hkind, hcode, hcalls⟩ := hcall
  obtain ⟨b', es, hb', htook⟩ := took_of_codeOf? hcode
  obtain rfl := Option.some_inj.1 (hb.symm.trans hb')
  exact hcalls.isDefined hkind htook.path

section Forest

variable (h : p.workspace.IsForest p.workspace.top)

include h

/-- A prototype stands under its own name. -/
theorem text?_declarations {name text : String}
    (htext : p.final.context.text? .declarations name = some text) :
    text = Emit.prototype name := by
  obtain ⟨x, b, es, fragment, -, -, htook, -, event, hevent, hwrites⟩ :=
    exists_writer h (Context.mem_entries_of_text? htext) nofun
  cases hwrites with
  | replaced hpart => cases hpart
  | new =>
    have hallowed := htook.allowed _ (List.mem_filterMap.2 ⟨_, hevent, rfl⟩)
    unfold Allows at hallowed
    split at hallowed
    · exact (Action.register.inj (hallowed.of_declarations ⟨rfl, rfl⟩)).2.2
    · obtain ⟨d, hd, -⟩ := hallowed
      cases hd

/-- A definition that is run and not refused defines its function. -/
theorem definesBy_of_accepted {name : String} {x : BlockId} (hx : p.IsDefinition name x)
    (hcode : p.codeOf? x = some (.statement "")) : p.DefinesBy name x := by
  obtain ⟨b, hb, hkind, rfl⟩ := hx
  obtain ⟨b', es, hb', htook, hcodes, hstays⟩ := path_of_codeOf? h hcode
  obtain rfl := Option.some_inj.1 (hb.symm.trans hb')
  obtain ⟨text, ⟨⟩, hprocedure⟩ := htook.path_procedure hkind
  obtain ⟨events, stack, isNew, isNew', rest, hbody, rfl, hnew⟩ := Emit.procedure_events hprocedure
  rcases hnew with ⟨rfl, -, -⟩ | ⟨-, d, hd, -⟩
  swap
  · exact absurd hd.symm d.comment_ne_empty
  have hfunction := hstays .methods _ _ nofun
    (List.mem_append_right _ (List.mem_cons_of_mem _ List.mem_cons_self))
  -- the prototype may have been registered before, but then it is the same one
  have hprototype : p.final.context.text? .declarations (Emit.functionName p b) =
      some (Emit.prototype (Emit.functionName p b)) := by
    have hhas : p.final.context.has .declarations (Emit.functionName p b) = true := by
      refine has_of_codeOf? hcode fun b' es' hb' htook' => ?_
      obtain rfl := Option.some_inj.1 (hb.symm.trans hb')
      exact htook'.registers_procedure hkind (.inl rfl)
    obtain ⟨text, htext⟩ := Option.isSome_iff_exists.1 hhas
    rw [show p.final.context.text? .declarations (Emit.functionName p b) = some text from htext,
      text?_declarations h htext]
  have hgot : ∀ y fragment, .made y fragment ∈ events → p.codeOf? y = some fragment :=
    fun y fragment hy => hcodes y fragment (List.mem_append_left _ hy)
  refine ⟨⟨b, hb, hkind, rfl⟩, hcode, ⟨b, events, stack, hb, hbody, hgot, hfunction, ?_⟩,
    hprototype, ?_⟩
  · rw [← Emit.trimmedRight_functionText]
    exact lists_of_mem (mem_parts_methods _ _) (List.mem_map_of_mem (mem_values_of_text? hfunction))
  · exact lists_of_mem (mem_parts_declarations _ _) (mem_values_of_text? hprototype)

/-- If no snippet bears the name, then of the definitions that are run one is not refused. -/
theorem exists_accepted_of_ran {name : String}
    (hsnippet : ∀ x ∈ p.ran .customCode, ¬p.IsSnippet name x) {x : BlockId}
    (hran : x ∈ p.ran .procedure) (hx : p.IsDefinition name x) :
    ∃ y, p.IsDefinition name y ∧ p.codeOf? y = some (.statement "") := by
  obtain ⟨b, hb, hkind, rfl⟩ := hx
  obtain ⟨fragment, hcode⟩ := exists_codeOf?_of_started (mem_ran.1 hran).1
  have hhas : p.final.context.has .methods (Emit.functionName p b) = true := by
    refine has_of_codeOf? hcode fun b' es hb' htook => ?_
    obtain rfl := Option.some_inj.1 (hb.symm.trans hb')
    exact htook.registers_procedure hkind (.inr rfl)
  obtain ⟨text, htext⟩ := Option.isSome_iff_exists.1 hhas
  -- whoever wrote the function found its name free
  obtain ⟨y, b', es, fragment', hcode', hb', htook, -, event, hevent, hwrites⟩ :=
    exists_writer h (Context.mem_entries_of_text? htext) nofun
  cases hwrites with
  | replaced hpart => cases hpart
  | new =>
    have hallowed := htook.allowed _ (List.mem_filterMap.2 ⟨_, hevent, rfl⟩)
    unfold Allows at hallowed
    split at hallowed
    · next kind hkind' =>
      rcases hallowed.of_methods ⟨rfl, rfl⟩ with ⟨rfl, hname⟩ | ⟨rfl, hname⟩
      · obtain ⟨code, rfl, hprocedure⟩ := htook.path_procedure hkind'
        rw [(Emit.procedure_of_writes hprocedure htook.closed hevent .new).1] at hcode'
        exact ⟨y, ⟨b', hb', hkind', hname⟩, hcode'⟩
      · refine absurd ⟨b', hb', hkind', hname⟩ (hsnippet y (mem_ran.2 ⟨?_, ?_⟩))
        · exact started_of_codeOf? hcode'
        · exact (isOf_iff hb').2 hkind'
    · obtain ⟨d, hd, -⟩ := hallowed
      cases hd

/-- A program defines a function just if a block that defines it is run and not refused; and if no
snippet bears the name, just if one is run. -/
theorem definesBy_iff {name : String} :
    ((∃ x, p.DefinesBy name x) ↔ ∃ x, p.IsDefinition name x ∧ p.codeOf? x = some (.statement "")) ∧
      ((∀ x ∈ p.ran .customCode, ¬p.IsSnippet name x) →
        ((∃ x, p.DefinesBy name x) ↔ ∃ x ∈ p.ran .procedure, p.IsDefinition name x)) := by
  have haccepted : (∃ x, p.DefinesBy name x) ↔
      ∃ x, p.IsDefinition name x ∧ p.codeOf? x = some (.statement "") := by
    constructor
    · rintro ⟨x, hx⟩
      exact ⟨x, hx.isDefinition, hx.accepted⟩
    · rintro ⟨x, hx, hcode⟩
      exact ⟨x, definesBy_of_accepted h hx hcode⟩
  refine ⟨haccepted, fun hsnippet => ?_⟩
  rw [haccepted]
  constructor
  · rintro ⟨x, hx, hcode⟩
    obtain ⟨b, hb, hkind, hname⟩ := hx
    refine ⟨x, mem_ran.2 ⟨started_of_codeOf? hcode, (isOf_iff hb).2 hkind⟩, b, hb, hkind, hname⟩
  · rintro ⟨x, hran, hx⟩
    exact exists_accepted_of_ran h hsnippet hran hx

end Forest

end Project

/-! ## Documents -/

/-- The call of a function in the program of a document is emitted only if an enabled block defines
the function. The program defines the function just if such a block is run and not refused; and if
no snippet of custom code bears the name, just if one is run. -/
theorem Document.emitsCall_definesBy_iff {parse : Markup.Parser} {source : String}
    {d : Document} (h : load parse source = .ok d) (board? : Option Board) {id : BlockId} {name : String}
    (hcall : (d.project board?).EmitsCall id name) :
    Emit.isDefined (d.project board?) name = true ∧
      ((∃ x, (d.project board?).DefinesBy name x) ↔
        ∃ x, (d.project board?).IsDefinition name x ∧
          (d.project board?).codeOf? x = some (.statement "")) ∧
      ((∀ x ∈ (d.project board?).ran .customCode, ¬(d.project board?).IsSnippet name x) →
        ((∃ x, (d.project board?).DefinesBy name x) ↔
          ∃ x ∈ (d.project board?).ran .procedure, (d.project board?).IsDefinition name x)) :=
  ⟨Project.isDefined_of_emitsCall hcall, Project.definesBy_iff (load_isForest h)⟩

/-- A document that calls a function which is defined in a disabled loop. -/
def Document.unresolved : Document where
  workspace :=
    { blocks := #[
        { id := "controls_repeat#0", type := "controls_repeat", disabled := true
          statements := ⟨[("DO", 1)]⟩ },
        { id := "procedures_defnoreturn#1", type := "procedures_defnoreturn" },
        { id := "procedures_callnoreturn#2", type := "procedures_callnoreturn" }]
      top := [0, 2]
      index := [0, 1, 2] }
  board? := none

/-- The text of the document above. -/
def Document.unresolvedText : String :=
  "<xml><block type='controls_repeat' disabled='true'><statement name='DO'>" ++
    "<block type='procedures_defnoreturn'/></statement></block>" ++
    "<block type='procedures_callnoreturn'/></xml>"

theorem Document.ofText_unresolvedText : ofText unresolvedText = .ok unresolved :=
  ofText_of_chars (append_eq_ofList (append_eq_ofList rfl rfl) rfl) (by decide +kernel)

/-- The program calls the function, and there is none. -/
theorem Document.not_definesBy_unresolved :
    ofText unresolvedText = .ok unresolved ∧
      (unresolved.project none).EmitsCall 2 "my_function" ∧
      (unresolved.project none).compile.diagnostics = [] ∧
      ¬∃ x, (unresolved.project none).DefinesBy "my_function" x := by
  have hcall : (unresolved.project none).EmitsCall 2 "my_function" :=
    ⟨_, .procedureCall, "my_function();\n", rfl, by decide, by decide +kernel, .direct⟩
  have hsnippet : (unresolved.project none).ran .customCode = [] := by decide +kernel
  have hran : (unresolved.project none).ran .procedure = [] := by decide +kernel
  have hdefines := (emitsCall_definesBy_iff ofText_unresolvedText none hcall).2.2
  rw [hsnippet, hran] at hdefines
  refine ⟨ofText_unresolvedText, hcall, by decide +kernel, fun hdefined => ?_⟩
  obtain ⟨x, hx, -⟩ := (hdefines nofun).1 hdefined
  cases hx

end BlockCompiler
