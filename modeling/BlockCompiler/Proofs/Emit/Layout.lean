import BlockCompiler.Proofs.Emit.Catalog

set_option autoImplicit false

/-! # Stacks laid out

Branches and loops write the stacks in their sockets into their own code, and a function writes its
stack into its body. So a line of a block in such a stack is a line of the code around it, only
further in. -/

namespace BlockCompiler

namespace Recipe

variable {α β : Type}

/-- All outcomes are as told, given that the code of blocks is closed. -/
def Yields (yields : α → Prop) (r : Recipe α) : Prop :=
  ∀ es a, Path r es a → (∀ e ∈ es, e.IsClosed) → yields a

/-- Every path asks for a block, and the outcome is as told if the block yields statements that have a
line with the given start. -/
def Shows (start : String) (x : BlockId) (shown : α → Prop) (r : Recipe α) : Prop :=
  ∀ es a, Path r es a → (∀ e ∈ es, e.IsClosed) → ∃ fragment, .made x fragment ∈ es ∧
    ∀ code, fragment = .statement code → Text.HasLine start code → shown a

variable {start : String} {x : BlockId} {shown : α → Prop} {shown' : β → Prop}
  {yields : α → Prop} {yields' : β → Prop}

theorem Meets.outcome {plan : List BlockId} {allowed : Action → Prop} {r : Recipe α}
    (h : r.Meets plan allowed yields) : r.Yields yields :=
  fun es a hpath hclosed => (h es a hpath hclosed).2.2

theorem Yields.any (r : Recipe α) : r.Yields fun _ => True := fun _ _ _ _ => trivial

theorem Yields.pure {a : α} (h : yields a) : (Pure.pure a : Recipe α).Yields yields := by
  intro es b hpath _
  obtain ⟨-, rfl⟩ := hpath.of_pure
  exact h

theorem Yields.bind {r : Recipe α} {f : α → Recipe β} (hr : r.Yields yields)
    (hf : ∀ a, yields a → (f a).Yields yields') : (r >>= f).Yields yields' := by
  intro es b hpath hclosed
  obtain ⟨es₁, a, es₂, rfl, h₁, h₂⟩ := hpath.of_bind
  have ha := hr es₁ a h₁ fun e he => hclosed e (List.mem_append_left _ he)
  exact hf a ha es₂ b h₂ fun e he => hclosed e (List.mem_append_right _ he)

/-- What follows keeps what the first recipe shows. -/
theorem Shows.bind_left {r : Recipe α} {f : α → Recipe β} (hr : r.Shows start x shown)
    (hf : ∀ a, (f a).Yields fun b => shown a → shown' b) : (r >>= f).Shows start x shown' := by
  intro es b hpath hclosed
  obtain ⟨es₁, a, es₂, rfl, h₁, h₂⟩ := hpath.of_bind
  obtain ⟨fragment, hmem, hshown⟩ :=
    hr es₁ a h₁ fun e he => hclosed e (List.mem_append_left _ he)
  refine ⟨fragment, List.mem_append_left _ hmem, fun code hcode hline => ?_⟩
  exact hf a es₂ b h₂ (fun e he => hclosed e (List.mem_append_right _ he)) (hshown code hcode hline)

/-- What follows shows the block. -/
theorem Shows.bind_right {r : Recipe α} {f : α → Recipe β} (hr : r.Yields yields)
    (hf : ∀ a, yields a → (f a).Shows start x shown') : (r >>= f).Shows start x shown' := by
  intro es b hpath hclosed
  obtain ⟨es₁, a, es₂, rfl, h₁, h₂⟩ := hpath.of_bind
  have ha := hr es₁ a h₁ fun e he => hclosed e (List.mem_append_left _ he)
  obtain ⟨fragment, hmem, hshown⟩ :=
    hf a ha es₂ b h₂ fun e he => hclosed e (List.mem_append_right _ he)
  exact ⟨fragment, List.mem_append_right _ hmem, hshown⟩

/-- The statements of a block are shown as they are. -/
theorem Shows.code (x : BlockId) : (Recipe.code x).Shows start x fun fragment =>
    ∃ text, fragment = .statement text ∧ Text.HasLine start text := by
  intro es fragment hpath _
  cases hpath with
  | emit fragment hpath =>
    cases hpath
    exact ⟨_, List.mem_cons_self, fun code hcode hline => ⟨code, hcode, hline⟩⟩

/-- Of texts one after the other each one is shown, since those in front of it are closed. -/
theorem Shows.concat {rs : List (Recipe String)} {r : Recipe String} (hr : r ∈ rs)
    (hshows : r.Shows start x (Text.HasLine start)) (hclosed : ∀ r ∈ rs, r.Yields Text.IsClosed) :
    (Recipe.concat rs).Shows start x (Text.HasLine start) := by
  induction rs with
  | nil => cases hr
  | cons first rs ih =>
    have hothers : ∀ r ∈ rs, r.Yields Text.IsClosed := fun r hr =>
      hclosed r (List.mem_cons_of_mem first hr)
    rcases List.mem_cons.1 hr with rfl | hr
    · refine hshows.bind_left fun text => ?_
      exact (Yields.any _).bind fun others _ => .pure fun hline => hline.append_right others
    · refine Shows.bind_right (hclosed first List.mem_cons_self) fun text htext => ?_
      exact (ih hr hothers).bind_left fun others => .pure fun hline => hline.append_left htext

end Recipe

namespace Emit

open Recipe

variable (p : Project) (b : Block) {start : String} {x : BlockId}

/-! ## Stacks -/

theorem member_shows (hx : p.workspace.takesPart x = true) :
    (member p x).Shows start x (Text.HasLine start) := by
  obtain ⟨b, hb, henabled⟩ := Workspace.takesPart_eq_true_iff.1 hx
  unfold member
  rw [hb]
  simp only [henabled, Bool.false_eq_true, if_false]
  refine (Shows.code x).bind_left fun fragment => ?_
  cases fragment with
  | statement text =>
    refine .pure ?_
    rintro ⟨_, ⟨⟩, hline⟩
    exact hline
  | expression found => exact .pure nofun

theorem member_isClosed (id : BlockId) : (member p id).Yields Text.IsClosed :=
  have hmeets : (member p id).Meets _ (fun _ => True) Text.IsClosed := member_meets p id
  hmeets.outcome

theorem chain_shows {head : BlockId} (hx : p.workspace.takesPart x = true)
    (hmember : x ∈ (p.workspace.chainFrom head).members) :
    (chain p head).Shows start x (Text.HasLine start) := by
  have hbody : (Recipe.concat ((p.workspace.chainFrom head).members.map (member p))).Shows start x
      (Text.HasLine start) := by
    refine Shows.concat (List.mem_map_of_mem hmember) (member_shows p hx) ?_
    intro r hr
    obtain ⟨id, -, rfl⟩ := List.mem_map.1 hr
    exact member_isClosed p id
  refine hbody.bind_left fun body => ?_
  exact (Yields.any _).bind fun close _ => .pure fun hline => hline.append_right close

variable (hvisible : Text.allBlank start.toList = false) (hstart : '\n' ∉ start.toList)

include hvisible hstart

theorem body_shows {socket : String} (hx : x ∈ p.filled b (.stack socket)) :
    (body p b socket).Shows start x (Text.HasLine start) := by
  obtain ⟨head, hhead, hmember, htakes⟩ := Project.mem_filled_stack.1 hx
  unfold body
  rw [hhead]
  have hspaces : ∀ c ∈ indentation.toList, c = ' ' := by simp [indentation]
  refine (chain_shows p htakes hmember).bind_left fun text => .pure fun hline => ?_
  exact hline.indent hspaces hvisible hstart

/-! ## Loops -/

omit hvisible hstart in
theorem isClosed_opening (head : String) : Text.IsClosed (head ++ " \x7b\n") :=
  Text.IsClosed.of_end head rfl

theorem loop_shows (head : String) (hx : x ∈ p.filled b (.stack "DO")) :
    (loop p b head).Shows start x (Text.HasLine start) := by
  refine (body_shows p b hvisible hstart hx).bind_left fun stack => .pure fun hline => ?_
  exact (hline.append_left (isClosed_opening head)).append_right _

theorem repeatLoop_shows (hx : x ∈ p.filled b (.stack "DO")) :
    (repeatLoop p b).Shows start x (Text.HasLine start) :=
  Shows.bind_right (Yields.any _) fun head _ => loop_shows p b hvisible hstart head hx

theorem countingLoop_shows (hx : x ∈ p.filled b (.stack "DO")) :
    (countingLoop p b).Shows start x (Text.HasLine start) := by
  refine Shows.bind_right (Yields.any _) fun _ _ => ?_
  refine Shows.bind_right (Yields.any _) fun first _ => ?_
  refine Shows.bind_right (Yields.any _) fun last _ => ?_
  refine Shows.bind_right (Yields.any _) fun step _ => ?_
  exact Shows.bind_right (Yields.any _) fun head _ => loop_shows p b hvisible hstart head hx

/-! ## Branches -/

theorem guarded_shows {n : Nat} (hx : x ∈ p.filled b (.stack ("DO" ++ toString n))) :
    (guarded p b n).Shows start x (Text.HasLine start) := by
  refine Shows.bind_right (Yields.any _) fun condition _ => ?_
  refine (body_shows p b hvisible hstart hx).bind_left fun stack => .pure fun hline => ?_
  exact hline.append_left (Text.IsClosed.of_end _ rfl)

theorem otherwise_shows (hx : x ∈ p.filled b (.stack "ELSE")) :
    (otherwise p b).Shows start x (Text.HasLine start) := by
  obtain ⟨head, hhead, -, -⟩ := Project.mem_filled_stack.1 hx
  have helse : hasElse b = true := by
    have hcontains : b.statements.contains "ELSE" = true := by
      rw [Ledger.contains, hhead]
      rfl
    rw [hasElse, hcontains, Bool.or_true]
  unfold otherwise
  rw [if_pos helse]
  refine (body_shows p b hvisible hstart hx).bind_left fun stack => .pure fun hline => ?_
  exact hline.append_left (.inr rfl)

omit hvisible hstart in
theorem branches_isClosed (ns : List Nat) :
    (Recipe.concat (ns.map (guarded p b))).Yields Text.IsClosed :=
  (Recipe.Meets.concat fun n _ => (guarded_reads p b n).meets).outcome

theorem branch_shows {socket : String} (hsocket : .stack socket ∈ slots b .branch)
    (hx : x ∈ p.filled b (.stack socket)) :
    (branch p b).Shows start x (Text.HasLine start) := by
  rcases List.mem_append.1 hsocket with hsocket | hsocket
  · obtain ⟨n, hn, hsocket⟩ := List.mem_flatMap.1 hsocket
    obtain rfl : socket = "DO" ++ toString n := by simpa using hsocket
    have hbranches := Shows.concat (List.mem_map_of_mem hn)
      (guarded_shows p b hvisible hstart hx) fun r hr => by
        obtain ⟨m, -, rfl⟩ := List.mem_map.1 hr
        exact (guarded_reads p b m).meets.outcome
    refine Shows.bind_right (Yields.any _) fun _ _ => hbranches.bind_left fun branches => ?_
    refine (Yields.any _).bind fun last _ => .pure fun hline => ?_
    exact (hline.append_right last).append_right _
  · obtain rfl : socket = "ELSE" := by simpa using hsocket
    refine Shows.bind_right (Yields.any _) fun _ _ => ?_
    refine Shows.bind_right (branches_isClosed p b _) fun branches hbranches => ?_
    refine (otherwise_shows p b hvisible hstart hx).bind_left fun last => .pure fun hline => ?_
    exact (hline.append_left hbranches).append_right _

/-! ## Functions -/

/-- A function that is new has a text that holds its stack. -/
theorem procedure_path {es : List Event} (hpath : (procedure p b).Path es "")
    (hclosed : ∀ e ∈ es, e.IsClosed) (hx : x ∈ p.filled b (.stack "STACK")) :
    ∃ fragment, .made x fragment ∈ es ∧ ∃ key text,
      .did (.register .methods key text) true ∈ es ∧
        ∀ code, fragment = .statement code → Text.HasLine start code → Text.HasLine start text := by
  obtain ⟨es₁, stack, es₂, rfl, hbody, hrest⟩ := hpath.of_bind
  obtain ⟨fragment, hmem, hshown⟩ := body_shows p b hvisible hstart hx es₁ stack hbody
    fun e he => hclosed e (List.mem_append_left _ he)
  obtain ⟨es₃, _, es₄, rfl, -, hmethod⟩ := hrest.of_bind
  obtain ⟨es₅, isNew, es₆, rfl, hregister, hend⟩ := hmethod.of_bind
  obtain rfl := hregister.of_perform
  cases isNew with
  | false =>
    obtain ⟨d, -, -, hline⟩ := Recipe.Path.of_diagnose hend
    exact absurd hline.symm d.comment_ne_empty
  | true =>
    refine ⟨fragment, List.mem_append_left _ hmem, Identifier.ofName (p.field b "NAME"),
      "void " ++ Identifier.ofName (p.field b "NAME") ++ "() \x7b\n" ++ stack ++ "\x7d\n", ?_, ?_⟩
    · refine List.mem_append_right _ (List.mem_append_right _ ?_)
      exact List.mem_append_left _ List.mem_cons_self
    · intro code hcode hline
      refine ((hshown code hcode hline).append_left ?_).append_right _
      exact Text.IsClosed.of_end _ rfl

/-! ## Recipes -/

/-- Whether a kind of block writes the stacks in its sockets into its own code. -/
def holdsStacks : Kind → Bool
  | .branch | .repeatLoop | .countingLoop => true
  | _ => false

variable {p b}

theorem recipe_shows {kind : Kind} (hkind : Kind.ofName? b.type = some kind)
    (hholds : holdsStacks kind = true) {socket : String} (hsocket : .stack socket ∈ slots b kind)
    (hx : x ∈ p.filled b (.stack socket)) (id : BlockId) :
    (recipe p id b).Shows start x fun fragment =>
      ∃ text, fragment = .statement text ∧ Text.HasLine start text := by
  have hstatement : ∀ code : Recipe String, code.Shows start x (Text.HasLine start) →
      (Emitter.statement code).fragment.Shows start x fun fragment =>
        ∃ text, fragment = .statement text ∧ Text.HasLine start text := by
    intro code hcode
    exact hcode.bind_left fun text => .pure fun hline => ⟨text, rfl, hline⟩
  rw [recipe_of_kind hkind]
  cases kind with
  | branch => exact hstatement _ (branch_shows p b hvisible hstart hsocket hx)
  | repeatLoop =>
    obtain rfl : socket = "DO" := by simpa [slots] using hsocket
    exact hstatement _ (repeatLoop_shows p b hvisible hstart hx)
  | countingLoop =>
    obtain rfl : socket = "DO" := by simpa [slots] using hsocket
    exact hstatement _ (countingLoop_shows p b hvisible hstart hx)
  | _ => cases hholds

end Emit

end BlockCompiler
