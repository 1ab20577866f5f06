import BlockCompiler.Proofs.Recipe.Path

set_option autoImplicit false

/-! # Recipes that speak up

Where a block has nothing to offer but a diagnostic, its recipe records the diagnostic. This module has
the rules for such recipes: what they record, what their outcome looks like, and that the outcome only
looks like a diagnostic if one was recorded. -/

namespace BlockCompiler

/-- The event that records a diagnostic. -/
def Event.records (d : Diagnostic) : Event := .did (.diagnose d) ()

theorem Event.diagnose_mem_actions {d : Diagnostic} {es : List Event} (h : Event.records d ∈ es) :
    .diagnose d ∈ Event.actions es :=
  List.mem_filterMap.2 ⟨_, h, rfl⟩

namespace Recipe

variable {α β : Type} {said own : Diagnostic → Prop} {yields quiet : α → Prop}
  {yields' quiet' : β → Prop}

/-- On every path, given that the code of blocks is closed, every diagnostic that is recorded is as
`said`, the outcome is as `yields` says, and a diagnostic of its `own` is recorded unless the outcome is
`quiet`. -/
def Speaks (said own : Diagnostic → Prop) (yields quiet : α → Prop) (r : Recipe α) : Prop :=
  ∀ es a, Path r es a → (∀ e ∈ es, e.IsClosed) →
    (∀ d, Event.records d ∈ es → said d) ∧ yields a ∧ ((∃ d, Event.records d ∈ es ∧ own d) ∨ quiet a)

theorem Speaks.pure {a : α} (hyields : yields a) (hquiet : quiet a) :
    (Pure.pure a : Recipe α).Speaks said own yields quiet := by
  intro es b hpath _
  obtain ⟨rfl, rfl⟩ := hpath.of_pure
  exact ⟨nofun, hyields, .inr hquiet⟩

/-- What follows has to speak up only if the first recipe did not. -/
theorem Speaks.bind {r : Recipe α} {f : α → Recipe β} (hr : r.Speaks said own yields quiet)
    (hf : ∀ a, yields a → (f a).Speaks said own yields' fun b => quiet a → quiet' b) :
    (r >>= f).Speaks said own yields' quiet' := by
  intro es b hpath hclosed
  obtain ⟨es₁, a, es₂, rfl, h₁, h₂⟩ := hpath.of_bind
  obtain ⟨hsaid₁, ha, hown₁⟩ := hr es₁ a h₁ fun e he => hclosed e (List.mem_append_left _ he)
  obtain ⟨hsaid₂, hb, hown₂⟩ := hf a ha es₂ b h₂ fun e he => hclosed e (List.mem_append_right _ he)
  refine ⟨fun d hd => (List.mem_append.1 hd).elim (hsaid₁ d) (hsaid₂ d), hb, ?_⟩
  rcases hown₁ with ⟨d, hd, hown⟩ | hquiet
  · exact .inl ⟨d, List.mem_append_left _ hd, hown⟩
  · refine hown₂.imp ?_ fun hquiet' => hquiet' hquiet
    rintro ⟨d, hd, hown⟩
    exact ⟨d, List.mem_append_right _ hd, hown⟩

theorem Speaks.mono {r : Recipe α} {weaker fainter : α → Prop} (h : r.Speaks said own yields quiet)
    (hyields : ∀ a, yields a → weaker a) (hquiet : ∀ a, quiet a → fainter a) :
    r.Speaks said own weaker fainter := by
  intro es a hpath hclosed
  obtain ⟨hsaid, ha, hown⟩ := h es a hpath hclosed
  exact ⟨hsaid, hyields a ha, hown.imp_right (hquiet a)⟩

/-- What follows a recipe of which nothing more is known. -/
theorem Speaks.after {r : Recipe α} {f : α → Recipe β} (hr : r.Speaks said own yields quiet)
    (hf : ∀ a, yields a → (f a).Speaks said own yields' quiet') :
    (r >>= f).Speaks said own yields' quiet' :=
  hr.bind fun a ha => (hf a ha).mono (fun _ => id) fun _ hquiet _ => hquiet

/-- A recipe meets what all that it records has to be. -/
theorem Meets.speaks {plan : List BlockId} {r : Recipe α}
    (h : r.Meets plan (fun action => ∀ d, action = .diagnose d → said d) yields) :
    r.Speaks said own yields fun _ => True := by
  intro es a hpath hclosed
  obtain ⟨-, hallowed, ha⟩ := h es a hpath hclosed
  exact ⟨fun d hd => hallowed _ (Event.diagnose_mem_actions hd) d rfl, ha, .inr trivial⟩

/-- An action that records nothing. -/
theorem Speaks.perform {action : Action} (h : ∀ d, action ≠ .diagnose d) :
    (Recipe.perform action).Speaks said own (fun _ => True) fun _ => True :=
  Meets.speaks (.perform fun d hd => absurd hd (h d))

theorem Speaks.ensure {part : Section} {key text : String} :
    (Recipe.ensure part key text).Speaks said own (fun _ => True) fun _ => True := by
  have hregister : ∀ d, Action.register part key text ≠ .diagnose d := nofun
  exact (Speaks.perform hregister).after fun _ _ => .pure trivial trivial

theorem Speaks.freshName {stem : String} :
    (Recipe.freshName stem).Speaks said own (fun _ => True) fun _ => True :=
  Meets.speaks (.freshName stem)

theorem Speaks.overflowUnless {fits : Bool} :
    (Recipe.overflowUnless fits).Speaks said own (fun _ => True) fun _ => True :=
  Meets.speaks (.overflowUnless fits)

/-- A diagnostic of its own is recorded, and its comment line is the outcome. -/
theorem Speaks.diagnose {severity : Severity} {b : Block} {message : String}
    (hsaid : said ⟨severity, b.id, b.type, message⟩) (hown : own ⟨severity, b.id, b.type, message⟩) :
    (Recipe.diagnose severity b message).Speaks said own
      (fun line => line = Diagnostic.comment ⟨severity, b.id, b.type, message⟩) fun _ => False := by
  intro es line hpath _
  obtain ⟨d, rfl, rfl, rfl⟩ := hpath.of_diagnose
  refine ⟨fun d hd => ?_, rfl, .inl ⟨_, List.mem_cons_self, hown⟩⟩
  obtain rfl : d = ⟨severity, b.id, b.type, message⟩ := by
    simpa [Event.records] using hd
  exact hsaid

/-- A remark is the outcome; without one, the recipe goes on. -/
theorem Speaks.unless {check : Recipe (Option String)} {code : Recipe String}
    {good calm : String → Prop}
    (hcheck : check.Speaks said own (fun remark => ∀ line ∈ remark, good line) (· = none))
    (hcode : code.Speaks said own good calm) :
    (do
      match ← check with
      | some line => return line
      | none => code : Recipe String).Speaks said own good calm := by
  refine hcheck.bind fun remark hremark => ?_
  cases remark with
  | some line => exact .pure (hremark line rfl) nofun
  | none => exact hcode.mono (fun _ => id) fun _ hcalm _ => hcalm

/-- Texts that are closed one by one are closed together. -/
theorem Speaks.concat {rs : List (Recipe String)}
    (h : ∀ r ∈ rs, r.Speaks said own Text.IsClosed fun _ => True) :
    (Recipe.concat rs).Speaks said own Text.IsClosed fun _ => True := by
  induction rs with
  | nil => exact .pure Text.isClosed_empty trivial
  | cons r rs ih =>
    refine (h r List.mem_cons_self).after fun first hfirst => ?_
    refine (ih fun r' hr' => h r' (List.mem_cons_of_mem r hr')).after fun others hothers => ?_
    exact .pure (hfirst.append hothers) trivial

end Recipe

end BlockCompiler
