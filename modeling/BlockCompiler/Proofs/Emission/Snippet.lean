import BlockCompiler.Proofs.Emission.Function

set_option autoImplicit false

/-! # Snippets of custom code in their sections

A snippet is registered under a key that is made of the id of its block. Where the blocks of a
workspace have different ids, no other snippet has the key; but the name of a function can be the key
of a snippet. So the snippets of a section stand there in the order in which their blocks were run, but
for those whose key a definition had taken before. -/

namespace BlockCompiler

/-- The blocks of a workspace have different ids. -/
def Workspace.HasDistinctIds (w : Workspace) : Prop := (w.blocks.toList.map Block.id).Nodup

instance (w : Workspace) : Decidable w.HasDistinctIds :=
  inferInstanceAs (Decidable (w.blocks.toList.map Block.id).Nodup)

theorem Workspace.HasDistinctIds.eq {w : Workspace} (h : w.HasDistinctIds) {x y : BlockId}
    {b c : Block} (hb : w.block? x = some b) (hc : w.block? y = some c) (hid : b.id = c.id) :
    x = y := by
  have hids : ∀ {z d}, w.block? z = some d → (w.blocks.toList.map Block.id)[z]? = some d.id := by
    intro z d hd
    rw [List.getElem?_map, Array.getElem?_toList]
    exact congrArg (Option.map Block.id) hd
  obtain ⟨hx, hxid⟩ := List.getElem?_eq_some_iff.1 (hids hb)
  obtain ⟨hy, hyid⟩ := List.getElem?_eq_some_iff.1 (hids hc)
  exact (List.Nodup.getElem_inj_iff h).1 (hxid.trans (hid.trans hyid.symm))

namespace Emit

variable {p : Project} {b : Block} {kind : Kind} {part : Section}

/-- The key and the text under which a block of custom code is registered in a section. -/
def snippet? (p : Project) (part : Section) (b : Block) : Option (String × String) :=
  if customSection? (p.field b "LOCATION") = some part then
    some ("custom_code_" ++ b.id, p.field b "CODE")
  else none

theorem customSection?_ne_declarations (location : String) :
    customSection? location ≠ some .declarations := by
  unfold customSection?
  split <;> nofun

theorem fst_of_snippet? {entry : String × String} (h : snippet? p part b = some entry) :
    entry.1 = "custom_code_" ++ b.id := by
  unfold snippet? at h
  split at h
  · exact congrArg Prod.fst (Option.some_inj.1 h).symm
  · cases h

/-- A snippet is registered in its section, and nothing else happens. -/
theorem customCode_path {es : List Event} {text : String} (hpath : (customCode p b).Path es text)
    {entry : String × String} (hentry : snippet? p part b = some entry) :
    ∃ isNew, es = [.did (.register part entry.1 entry.2) isNew] := by
  unfold snippet? at hentry
  split at hentry
  · next hpart =>
    obtain rfl := Option.some_inj.1 hentry
    unfold customCode at hpath
    simp only [hpart] at hpath
    obtain ⟨es₁, _, es₂, rfl, hensure, hpure⟩ := hpath.of_bind
    obtain ⟨es₃, isNew, es₄, rfl, hregister, hpure'⟩ := hensure.of_bind
    obtain rfl := hregister.of_perform
    obtain ⟨rfl, -⟩ := hpure'.of_pure
    obtain ⟨rfl, -⟩ := hpure.of_pure
    exact ⟨isNew, rfl⟩
  · cases hentry

/-- No section of the program but that of prototypes has keys of snippets from anything but the
snippets themselves and definitions. -/
theorem Allowed.of_snippetKey {action : Action} (h : Allowed p b kind action) {id : String}
    (hpart : part ≠ .declarations) (hregisters : action.Registers part ("custom_code_" ++ id)) :
    (kind = .customCode ∧ b.id = id ∧ ∃ entry, snippet? p part b = some entry) ∨
      (part = .methods ∧ kind = .procedure ∧ functionName p b = "custom_code_" ++ id ∧
        ∃ stack, action = .register .methods (functionName p b) (functionText (functionName p b) stack)) := by
  have htable : ∀ kind ∈ Kind.all, ∀ key ∈ ownKeys kind,
      "custom_code_".toList.isPrefixOf key.2.toList = false := by decide +kernel
  have hprefix : ∀ key : String, key = "custom_code_" ++ id →
      "custom_code_".toList.isPrefixOf key.toList = true := by
    rintro key rfl
    rw [String.toList_append, List.isPrefixOf_iff_prefix]
    exact List.prefix_append _ _
  cases h with
  | own text hown =>
    have hkey := hprefix _ hregisters.2.symm
    rw [htable kind (Kind.mem_all kind) _ hown] at hkey
    cases hkey
  | snippet text hkind hsection =>
    obtain ⟨rfl, hkey⟩ := hregisters
    refine .inl ⟨hkind, ((String.append_right_inj _).1 hkey).symm, _, if_pos hsection⟩
  | array size =>
    have hkey := hprefix _ hregisters.2.symm
    rw [arrayKey, String.toList_append] at hkey
    cases hkey
  | prototype => exact absurd hregisters.1 hpart
  | function stack hkind => exact .inr ⟨hregisters.1, hkind, hregisters.2.symm, stack, rfl⟩
  | mount text | remount text =>
    have hkey := hprefix _ hregisters.2.symm
    cases hkey
  | inferType | setType | setLength | diagnose => exact hregisters.elim

end Emit

namespace Project

open Workspace

variable {p : Project} {part : Section}

/-! ## Snippets that are run -/

/-- The key and the text of a snippet in a section. -/
def snippetOf? (p : Project) (part : Section) (x : BlockId) : Option (String × String) :=
  if p.isOf .customCode x then (p.workspace.block? x).bind (Emit.snippet? p part) else none

/-- The snippets of a section among blocks that are given in turn. -/
def snippetsAmong (p : Project) (part : Section) (ids : List BlockId) : List (String × String) :=
  ids.filterMap (p.snippetOf? part)

/-- The snippets of a section whose blocks are run, in turn. -/
def snippets (p : Project) (part : Section) : List (String × String) :=
  p.snippetsAmong part p.final.started.reverse

/-- A definition that is run and not refused has taken a key in the section of functions. -/
def isOvershadowed (p : Project) (part : Section) (key : String) : Bool :=
  part == .methods && (p.ran .procedure).any fun y =>
    (p.workspace.block? y).any (Emit.functionName p · == key) && p.codeOf? y == some (.statement "")

theorem isOvershadowed_iff {key : String} : p.isOvershadowed part key = true ↔
    part = .methods ∧ ∃ y, p.IsDefinition key y ∧ p.codeOf? y = some (.statement "") := by
  simp only [isOvershadowed, Bool.and_eq_true, beq_iff_eq, List.any_eq_true, Option.any_eq_true]
  refine and_congr_right fun _ => exists_congr fun y => ⟨?_, ?_⟩
  · rintro ⟨hran, ⟨b, hb, hname⟩, hcode⟩
    exact ⟨⟨b, hb, (isOf_iff hb).1 (mem_ran.1 hran).2, hname⟩, hcode⟩
  · rintro ⟨⟨b, hb, hkind, hname⟩, hcode⟩
    exact ⟨mem_ran.2 ⟨started_of_codeOf? hcode, (isOf_iff hb).2 hkind⟩, ⟨b, hb, hname⟩, hcode⟩

theorem snippetOf?_eq_some {x : BlockId} {entry : String × String}
    (h : p.snippetOf? part x = some entry) : ∃ b, p.workspace.block? x = some b ∧
      Kind.ofName? b.type = some .customCode ∧ Emit.snippet? p part b = some entry := by
  unfold snippetOf? at h
  split at h
  · next hof =>
    obtain ⟨b, hb, hentry⟩ := Option.bind_eq_some_iff.1 h
    exact ⟨b, hb, (isOf_iff hb).1 hof, hentry⟩
  · cases h

theorem exists_key_of_mem_snippetsAmong {ids : List BlockId} {entry : String × String}
    (h : entry ∈ p.snippetsAmong part ids) : ∃ id, entry.1 = "custom_code_" ++ id := by
  obtain ⟨x, -, hx⟩ := List.mem_filterMap.1 h
  obtain ⟨b, -, -, hentry⟩ := snippetOf?_eq_some hx
  exact ⟨b.id, Emit.fst_of_snippet? hentry⟩

/-! ## Records -/

/-- What is on record at a state is part of what is on record later. -/
structure Precedes (s t : Emission) : Prop where
  started : s.started <:+ t.started
  made : s.made <:+ t.made

theorem Precedes.refl (s : Emission) : Precedes s s := ⟨List.suffix_rfl, List.suffix_rfl⟩

theorem Precedes.trans {s t u : Emission} (h : Precedes s t) (h' : Precedes t u) : Precedes s u :=
  ⟨h.started.trans h'.started, h.made.trans h'.made⟩

/-- No block is started twice, and code on record is the code of its block in the end. -/
structure IsOnRecord (p : Project) (s : Emission) : Prop where
  started : s.started.Nodup
  made : ∀ x fragment, (x, fragment) ∈ s.made → p.codeOf? x = some fragment

theorem IsOnRecord.of_precedes {s t : Emission} (h : p.IsOnRecord t) (hst : Precedes s t) :
    p.IsOnRecord s :=
  ⟨h.started.sublist hst.started.sublist, fun x fragment hmem => h.made x fragment (hst.made.subset hmem)⟩

theorem final_isOnRecord (h : p.workspace.IsForest p.workspace.top) : p.IsOnRecord p.final := by
  refine ⟨(final_started h).1, fun x fragment hmem => ?_⟩
  obtain ⟨es, entries, -, -, -, hchronicle⟩ := final_chronicle h
  rw [hchronicle.made] at hmem
  rcases List.mem_append.1 hmem with hmem | hmem
  · obtain ⟨e, he, heq⟩ := List.mem_map.1 hmem
    obtain ⟨rfl, rfl⟩ := Prod.mk.inj heq
    exact hchronicle.codeOf?_of_mem h he
  · cases hmem

/-! ## Snippets in turn -/

/-- The snippets of a section that were started stand there in turn, but for overshadowed ones, and
keys of snippets that are not overshadowed are those of blocks that were started. -/
structure KeepsSnippets (p : Project) (part : Section) (s : Emission) : Prop where
  inTurn : ((p.snippetsAmong part s.started.reverse).filter
    fun e => !p.isOvershadowed part e.1).Sublist (s.context.ledger part).entries
  owned : ∀ id, p.isOvershadowed part ("custom_code_" ++ id) = false →
    s.context.has part ("custom_code_" ++ id) = true →
      ∃ x ∈ s.started, ∃ b, p.workspace.block? x = some b ∧ b.id = id

/-- An action that registers keys of snippets only where these are there already, or overshadowed. -/
theorem KeepsSnippets.perform {s : Emission} {action : Action} (h : p.KeepsSnippets part s)
    (haction : ∀ id, action.Registers part ("custom_code_" ++ id) → part ≠ .setups ∧
      (p.isOvershadowed part ("custom_code_" ++ id) = false →
        s.context.has part ("custom_code_" ++ id) = true)) :
    p.KeepsSnippets part (s.perform action).2 where
  inTurn := by
    have hledger : (p.snippetsAmong part s.started.reverse |>.filter
        fun e => !p.isOvershadowed part e.1).Sublist ((action.perform s.context).2.ledger part).entries := by
      cases action with
      | register part' key text =>
        rw [Action.perform, Action.ledger_withLedger]
        split
        · next heq => exact heq ▸ Ledger.sublist_add h.inTurn
        · exact h.inTurn
      | replaceSetup key text =>
        cases part with
        | setups =>
          refine Ledger.sublist_put h.inTurn fun e he heq => ?_
          obtain ⟨id, hid⟩ := exists_key_of_mem_snippetsAmong (List.mem_of_mem_filter he)
          exact (haction id ⟨rfl, hid ▸ heq⟩).1 rfl
        | _ => exact h.inTurn
      | inferType name text =>
        cases htype : s.context.types.get? name <;> rw [Action.perform, htype] <;> cases part <;>
          exact h.inTurn
      | setType | setLength | diagnose => cases part <;> exact h.inTurn
    exact hledger
  owned id hfree hhas := by
    rcases (Action.has_perform s.context action part _).1 hhas with hhas | hregisters
    · exact h.owned id hfree hhas
    · exact h.owned id hfree ((haction id hregisters).2 hfree)

theorem snippetsAmong_enter (s : Emission) (id : BlockId) :
    p.snippetsAmong part (s.enter id).started.reverse =
      p.snippetsAmong part s.started.reverse ++ (p.snippetOf? part id).toList := by
  rw [Emission.enter, List.reverse_cons, snippetsAmong, List.filterMap_append, snippetsAmong]
  cases hentry : p.snippetOf? part id <;> simp [hentry]

/-- A block that is no snippet of the section can start. -/
theorem KeepsSnippets.enter {s : Emission} {id : BlockId} (h : p.KeepsSnippets part s)
    (hother : p.snippetOf? part id = none) : p.KeepsSnippets part (s.enter id) where
  inTurn := by
    rw [snippetsAmong_enter, hother, Option.toList_none, List.append_nil]
    exact h.inTurn
  owned id' hfree hhas := by
    obtain ⟨x, hx, hid⟩ := h.owned id' hfree hhas
    exact ⟨x, List.mem_cons_of_mem id hx, hid⟩

/-- A snippet that starts and is registered is the last one of its section, unless its key is
overshadowed. -/
theorem KeepsSnippets.enter_register {s : Emission} {id : BlockId} {entry : String × String}
    (h : p.KeepsSnippets part s) (hids : p.workspace.HasDistinctIds)
    (hentry : p.snippetOf? part id = some entry) (hstarted : id ∉ s.started) :
    p.KeepsSnippets part ((s.enter id).perform (.register part entry.1 entry.2)).2 := by
  obtain ⟨b, hb, -, hsnippet⟩ := snippetOf?_eq_some hentry
  have hkey := Emit.fst_of_snippet? hsnippet
  refine ⟨?_, fun id' hfree hhas => ?_⟩
  · have hledger : ((s.enter id).perform (.register part entry.1 entry.2)).2.context.ledger part =
        (s.context.ledger part).add entry.1 entry.2 :=
      (Action.ledger_withLedger _ part part _).trans (if_pos rfl)
    rw [hledger]
    show ((p.snippetsAmong part (s.enter id).started.reverse).filter _).Sublist _
    rw [snippetsAmong_enter, hentry, Option.toList_some, List.filter_append]
    cases hover : p.isOvershadowed part entry.1 with
    | true =>
      rw [List.filter_cons_of_neg (by simp [hover]), List.filter_nil, List.append_nil]
      exact Ledger.sublist_add h.inTurn
    | false =>
      -- the key is new: else it would be that of a block that was started before
      have hnew : (s.context.ledger part).contains entry.1 = false := by
        refine Bool.eq_false_iff.2 fun hhas => ?_
        obtain ⟨x, hx, c, hc, hid⟩ := h.owned b.id (hkey ▸ hover) (hkey ▸ hhas)
        obtain rfl := hids.eq hc hb hid
        exact hstarted hx
      rw [List.filter_cons_of_pos (by simp [hover]), List.filter_nil, Ledger.add, hnew,
        if_neg Bool.false_ne_true]
      exact h.inTurn.append_right _
  · rcases (Action.has_perform s.context (.register part entry.1 entry.2) part _).1 hhas with
      hhas | ⟨-, hregisters⟩
    · obtain ⟨x, hx, hid⟩ := h.owned id' hfree hhas
      exact ⟨x, List.mem_cons_of_mem id hx, hid⟩
    · rw [hkey] at hregisters
      exact ⟨id, List.mem_cons_self, b, hb, ((String.append_right_inj _).1 hregisters).symm⟩

/-- The code of a block adds to the records, and keeps snippets in turn. -/
def AddsSnippets (p : Project) (part : Section) : Law := fun _ s _ t =>
  Precedes s t ∧ (p.IsOnRecord t → p.KeepsSnippets part s → p.KeepsSnippets part t)

theorem steps_precedes {active : List BlockId} {es : List Event} {s t : Emission}
    (hsteps : Emission.Steps (p.AddsSnippets part) active es s t) : Precedes s t :=
  hsteps.invariant (I := Precedes s) (fun _ _ _ h => ⟨h.started, h.made⟩)
    (fun _ _ _ _ _ _ hlaw h => h.trans hlaw.1) (fun _ h => ⟨h.started, h.made⟩) (.refl s)

section Block

variable {id : BlockId} {b : Block} {s t u : Emission} {es : List Event} {fragment : Fragment}
  (hb : p.workspace.block? id = some b) (htook : p.Took id b es fragment)

include hb htook

/-- What a block other than a snippet of the section registers under the key of a snippet is there
already, or the key is overshadowed. -/
theorem has_of_registers_snippetKey {id' : String} {action : Action} (hpart : part ≠ .declarations)
    (hother : p.snippetOf? part id = none) (hcode : p.codeOf? id = some fragment)
    (hevent : Event.did action (u.perform action).1 ∈ es)
    (hregisters : action.Registers part ("custom_code_" ++ id')) :
    part ≠ .setups ∧ (p.isOvershadowed part ("custom_code_" ++ id') = false →
      u.context.has part ("custom_code_" ++ id') = true) := by
  have hallowed := htook.allowed action (List.mem_filterMap.2 ⟨_, hevent, rfl⟩)
  unfold Allows at hallowed
  split at hallowed
  · next kind hkind =>
    rcases hallowed.of_snippetKey hpart hregisters with
      ⟨rfl, -, entry, hentry⟩ | ⟨rfl, rfl, hname, stack, rfl⟩
    · rw [snippetOf?, if_pos ((isOf_iff hb).2 hkind), hb, Option.bind_some, hentry] at hother
      cases hother
    · refine ⟨nofun, fun hfree => ?_⟩
      -- a definition that finds the key new is not refused, so the key would be overshadowed
      by_contra hnew
      have hanswer : (u.perform (.register .methods (Emit.functionName p b)
          (Emit.functionText (Emit.functionName p b) stack))).1 = true :=
        Bool.not_eq_eq_eq_not.2 (Bool.eq_false_iff.2 (hname ▸ hnew))
      rw [hanswer] at hevent
      obtain ⟨text, rfl, hprocedure⟩ := htook.path_procedure hkind
      obtain ⟨rfl, -⟩ := Emit.procedure_of_writes hprocedure htook.closed hevent .new
      rw [isOvershadowed_iff.2 ⟨rfl, id, ⟨b, hb, hkind, hname⟩, hcode⟩] at hfree
      cases hfree
  · obtain ⟨d, rfl, -⟩ := hallowed
    exact hregisters.elim

variable (hsteps : Emission.Steps (p.AddsSnippets part) (id :: s.active) es (s.enter id) t)
  (hrecord : p.IsOnRecord (t.leave id fragment))

include hsteps hrecord

/-- A block that is no snippet of the section keeps snippets in turn, as long as the blocks that it
asks for do. -/
theorem keepsSnippets_of_other (hpart : part ≠ .declarations)
    (hother : p.snippetOf? part id = none) (hs : p.KeepsSnippets part s) : p.KeepsSnippets part t := by
  have hcode : p.codeOf? id = some fragment := hrecord.made id fragment List.mem_cons_self
  have hfinal : p.IsOnRecord t → p.KeepsSnippets part t := by
    refine hsteps.invariant_of_events (I := fun u => p.IsOnRecord u → p.KeepsSnippets part u) ?_ ?_
      (fun u hu hrecordu =>
        let hkept := hu ⟨hrecordu.started, hrecordu.made⟩
        ⟨hkept.inTurn, hkept.owned⟩) fun _ => hs.enter hother
    · exact fun action u hevent hu hrecordu =>
        (hu ⟨hrecordu.started, hrecordu.made⟩).perform fun id' hregisters =>
          has_of_registers_snippetKey hb htook hpart hother hcode hevent hregisters
    · exact fun x _ u f v _ hlaw hu hrecordv =>
        hlaw.2 hrecordv (hu (hrecordv.of_precedes hlaw.1))
  exact hfinal (hrecord.of_precedes ⟨List.suffix_rfl, List.suffix_cons _ _⟩)

/-- A snippet keeps snippets in turn. -/
theorem keepsSnippets_of_snippet (hids : p.workspace.HasDistinctIds) {entry : String × String}
    (hentry : p.snippetOf? part id = some entry) (hs : p.KeepsSnippets part s) :
    p.KeepsSnippets part t := by
  obtain ⟨b', hb', hkind, hsnippet⟩ := snippetOf?_eq_some hentry
  obtain rfl := Option.some_inj.1 (hb.symm.trans hb')
  have hpath := htook.path
  rw [Emit.recipe_of_kind hkind] at hpath
  obtain ⟨text, -, hcustom⟩ := Emit.path_of_statement hpath
  obtain ⟨isNew, rfl⟩ := Emit.customCode_path hcustom hsnippet
  cases hsteps with
  | did action hsteps =>
    cases hsteps
    exact hs.enter_register hids hentry (List.nodup_cons.1 hrecord.started).1

end Block

theorem emit_addsSnippets (hids : p.workspace.HasDistinctIds) (hpart : part ≠ .declarations)
    (id : BlockId) (s : Emission) (hs : s.Nested p.workspace) :
    p.AddsSnippets part id s (p.emit id s).1 (p.emit id s).2 := by
  refine (emit_induction (p.AddsSnippets part) ?_ ?_ ?_ id s hs).2
  · exact fun _ s _ => ⟨.refl s, fun _ hkept => hkept⟩
  · intro id b s _ _
    refine ⟨⟨List.suffix_rfl, List.suffix_rfl⟩, fun _ hkept => ?_⟩
    have hwarning : ∀ key, ¬(Action.diagnose (selfConnectedWarning b)).Registers part key :=
      fun _ => not_false
    exact hkept.perform fun _ hregisters => absurd hregisters (hwarning _)
  · intro id b s es fragment t hb _ htook hsteps
    have hprecedes := steps_precedes hsteps
    refine ⟨⟨?_, ?_⟩, fun hrecord hkept => ?_⟩
    · exact (List.suffix_cons id _).trans hprecedes.started
    · exact hprecedes.made.trans (List.suffix_cons _ _)
    · have ht : p.KeepsSnippets part t := by
        cases hentry : p.snippetOf? part id with
        | none => exact keepsSnippets_of_other hb htook hsteps hrecord hpart hentry hkept
        | some entry => exact keepsSnippets_of_snippet hb htook hsteps hrecord hids hentry hkept
      exact ⟨ht.inTurn, ht.owned⟩

theorem snippetOf?_declarations (x : BlockId) : p.snippetOf? .declarations x = none := by
  refine Option.eq_none_iff_forall_ne_some.2 fun entry hentry => ?_
  obtain ⟨b, -, -, hsnippet⟩ := snippetOf?_eq_some hentry
  rw [Emit.snippet?, if_neg (Emit.customSection?_ne_declarations _)] at hsnippet
  cases hsnippet

section Forest

variable (h : p.workspace.IsForest p.workspace.top) (hids : p.workspace.HasDistinctIds)

include hids

include h in
/-- The snippets of a section that are run stand there in turn, but for overshadowed ones. -/
theorem snippets_sublist (part : Section) :
    ((p.snippets part).filter fun e => !p.isOvershadowed part e.1).Sublist
      (p.final.context.ledger part).entries := by
  by_cases hpart : part = .declarations
  · subst hpart
    have hnone : p.snippets .declarations = [] :=
      List.filterMap_eq_nil_iff.2 fun x _ => snippetOf?_declarations x
    rw [hnone]
    exact List.nil_sublist _
  obtain ⟨es, -, hsteps, -, -, hallowed⟩ := final_steps (emit_addsSnippets hids hpart)
  have hfinal : p.IsOnRecord p.final → p.KeepsSnippets part p.final := by
    refine hsteps.invariant (I := fun u => p.IsOnRecord u → p.KeepsSnippets part u) ?_ ?_
      (fun u hu hrecord =>
        let hkept := hu ⟨hrecord.started, hrecord.made⟩
        ⟨hkept.inTurn, hkept.owned⟩) fun _ => ⟨List.nil_sublist _, fun _ _ hhas => ?_⟩
    · intro action haction u hu hrecord
      refine (hu ⟨hrecord.started, hrecord.made⟩).perform fun id hregisters => ?_
      cases hallowed action haction with
      | library =>
        have hkey := congrArg String.toList hregisters.2
        rw [String.toList_append] at hkey
        cases hkey
      | cyclic => exact hregisters.elim
    · intro x _ u f v _ hlaw hu hrecord
      exact hlaw.2 hrecord (hu (hrecord.of_precedes hlaw.1))
    · cases part <;> cases hhas
  exact (hfinal (final_isOnRecord h)).inTurn

/-- Of all other blocks only definitions register the key of a snippet in its section. -/
theorem isDefinition_of_registers {x y : BlockId} {entry : String × String}
    (hentry : p.snippetOf? part x = some entry) (hne : y ≠ x) {c : Block}
    (hc : p.workspace.block? y = some c) {es : List Event} {fragment : Fragment}
    (htook : p.Took y c es fragment) {action : Action} (haction : action ∈ Event.actions es)
    (hregisters : action.Registers part entry.1) :
    part = .methods ∧ p.IsDefinition entry.1 y := by
  obtain ⟨b, hb, -, hsnippet⟩ := snippetOf?_eq_some hentry
  have hpart : part ≠ .declarations := by
    rintro rfl
    rw [snippetOf?_declarations] at hentry
    cases hentry
  rw [Emit.fst_of_snippet? hsnippet] at hregisters ⊢
  have hallowed := htook.allowed action haction
  unfold Allows at hallowed
  split at hallowed
  · next kind hkind =>
    rcases hallowed.of_snippetKey hpart hregisters with ⟨-, hid, -⟩ | ⟨rfl, rfl, hname, -⟩
    · exact absurd (hids.eq hc hb hid) hne
    · exact ⟨rfl, c, hc, hkind, hname⟩
  · obtain ⟨d, rfl, -⟩ := hallowed
    exact hregisters.elim

end Forest

end Project

/-! ## Documents -/

/-- In a document whose blocks have different ids, the snippets of a section that are run stand there
in the order in which they are run, each with its own code; but for those whose key the function of a
definition has taken. The program has this function, and the section is that of functions. No other
block registers the key of a snippet in its section but such a definition. -/
theorem Document.snippets_stay {parse : Markup.Parser} {source : String} {d : Document}
    (h : load parse source = .ok d) (hids : d.workspace.HasDistinctIds) (board? : Option Board) (part : Section) :
    let p := d.project board?
    ((p.snippets part).filter fun e => !p.isOvershadowed part e.1).Sublist
        (p.final.context.ledger part).entries ∧
      (∀ e ∈ p.snippets part, p.isOvershadowed part e.1 = true →
        part = .methods ∧ ∃ y, p.DefinesBy e.1 y) ∧
      ∀ x e, p.snippetOf? part x = some e → ∀ y c es fragment, y ≠ x →
        p.workspace.block? y = some c → p.Took y c es fragment →
        ∀ action ∈ Event.actions es, action.Registers part e.1 →
          part = .methods ∧ p.IsDefinition e.1 y := by
  refine ⟨Project.snippets_sublist (load_isForest h) hids part, fun e _ hover => ?_, ?_⟩
  · obtain ⟨hpart, y, hy, hcode⟩ := Project.isOvershadowed_iff.1 hover
    exact ⟨hpart, y, Project.definesBy_of_accepted (load_isForest h) hy hcode⟩
  · intro x e hentry y c es fragment hne hc htook action haction hregisters
    exact Project.isDefinition_of_registers hids hentry hne hc htook haction hregisters

/-- A document that defines a function with the key of a snippet, in front of two snippets. -/
def Document.eponymous : Document where
  workspace :=
    { blocks := #[
        { id := "procedures_defnoreturn#0", type := "procedures_defnoreturn"
          fields := ⟨[("NAME", "custom_code_a")]⟩ },
        { id := "a", type := "custom_code", y := 1
          fields := ⟨[("LOCATION", "functions"), ("CODE", "int twice(int n) { return 2 * n; }")]⟩ },
        { id := "b", type := "custom_code", y := 2
          fields := ⟨[("LOCATION", "functions"), ("CODE", "int thrice(int n) { return 3 * n; }")]⟩ }]
      top := [0, 1, 2]
      index := [0, 1, 2] }
  board? := none

/-- The text of the document above. -/
def Document.eponymousText : String :=
  "<xml><block type='procedures_defnoreturn'><field name='NAME'>custom_code_a</field></block>" ++
    ("<block type='custom_code' id='a' y='1'><field name='LOCATION'>functions</field>" ++
      "<field name='CODE'>int twice(int n) { return 2 * n; }</field></block>") ++
    ("<block type='custom_code' id='b' y='2'><field name='LOCATION'>functions</field>" ++
      "<field name='CODE'>int thrice(int n) { return 3 * n; }</field></block></xml>")

theorem Document.ofText_eponymousText : ofText eponymousText = .ok eponymous :=
  ofText_of_chars (append_eq_ofList (append_eq_ofList rfl (append_eq_ofList rfl rfl))
    (append_eq_ofList rfl rfl)) (by decide +kernel)

/-- The second snippet is there, and the first one is not: its key is that of the function. -/
theorem Document.snippets_stay_eponymous :
    let p := eponymous.project none
    let twice := ("custom_code_a", "int twice(int n) { return 2 * n; }")
    let thrice := ("custom_code_b", "int thrice(int n) { return 3 * n; }")
    ofText eponymousText = .ok eponymous ∧ eponymous.workspace.HasDistinctIds ∧
      p.snippets .methods = [twice, thrice] ∧ thrice ∈ (p.final.context.ledger .methods).entries ∧
      twice ∉ (p.final.context.ledger .methods).entries ∧ (∃ y, p.DefinesBy "custom_code_a" y) ∧
      p.compile.diagnostics = [] := by
  have hids : eponymous.workspace.HasDistinctIds := by decide
  have hsnippets : (eponymous.project none).snippets .methods =
      [("custom_code_a", "int twice(int n) { return 2 * n; }"),
        ("custom_code_b", "int thrice(int n) { return 3 * n; }")] := by decide +kernel
  have hover : ((eponymous.project none).snippets .methods).map
      (fun e => (eponymous.project none).isOvershadowed .methods e.1) = [true, false] := by
    decide +kernel
  obtain ⟨hstay, hlost, -⟩ := snippets_stay ofText_eponymousText hids none .methods
  rw [hsnippets] at hstay hlost hover
  simp only [List.map_cons, List.map_nil, List.cons.injEq, and_true] at hover
  refine ⟨ofText_eponymousText, hids, hsnippets, hstay.subset ?_, by decide +kernel, ?_,
    by decide +kernel⟩
  · simp [hover.1, hover.2]
  · exact (hlost _ List.mem_cons_self hover.1).2

end BlockCompiler
