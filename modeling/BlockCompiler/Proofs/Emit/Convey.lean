import BlockCompiler.Proofs.Emit.Subscript
import BlockCompiler.Proofs.Recipe.Convey
import BlockCompiler.Proofs.Text.Balanced

set_option autoImplicit false

/-! # What sockets convey

A block leaves code out in two places: a value in a stack, and statements where a value is expected,
unless they are a diagnostic. All other code in its sockets shows in what is read from them. -/

namespace BlockCompiler

open Text Comment

/-- A block leaves the code of another one out: a value that stands in a stack, or statements in place
of a value that are no diagnostic. -/
inductive Project.LeavesOut (p : Project) (b : Block) (x : BlockId) : Fragment → Prop where
  | value {socket : String} (found : Operand) :
    x ∈ p.filled b (.stack socket) → LeavesOut p b x (.expression found)
  | statement {socket text : String} :
    x ∈ p.filled b (.value socket) → isDiagnostic text = false → LeavesOut p b x (.statement text)

theorem Identifier.isOpen_ofName (name : String) : IsOpen (ofName name) := by
  obtain ⟨hword, c, rest, hname, -⟩ := Expression.isName_ofName name
  have hc : isWordChar c = true := List.all_eq_true.1 hword c (hname ▸ List.mem_cons_self)
  refine isOpen_of_head? (c := c) (by rw [hname]; rfl) (Expression.not_isBlank_of_isWordChar hc) ?_
  rintro rfl
  exact absurd hc (by decide)

namespace Diagnostic.IsCited

variable {d : Diagnostic} {text : String}

theorem append_right (h : d.IsCited text) (rest : String) : d.IsCited (text ++ rest) :=
  ⟨h.holds.append_right rest, h.isOpen.append rest⟩

theorem append_left (h : d.IsCited text) {front : String} (hfront : IsOpen front) :
    d.IsCited (front ++ text) :=
  ⟨h.holds.append_left front, hfront.append text⟩

/-- A comment is not read as an integer. -/
theorem not_integer (h : d.IsCited text) : intLiteral? text = none := by
  obtain ⟨inside, hwithin, -⟩ := h.holds
  refine intLiteral?_of_slash (hwithin.subset ?_)
  simp

end Diagnostic.IsCited

theorem Diagnostic.IsShown.cited {d : Diagnostic} {text : String} (h : d.IsShown text)
    (hd : d.IsOneLine) (value : String) : d.IsCited (Comment.beforeValue text value) :=
  ⟨h.beforeValue hd value, isOpen_of_head? (head?_beforeValue text value) rfl (by decide)⟩

theorem Operand.isSettled_within {o : Operand} (h : IsSettled o.text) (outer : Precedence) :
    IsSettled (o.within outer) := by
  have hopen : IsOpen "(" := isOpen_of_head? (c := '(') rfl rfl (by decide)
  unfold Operand.within Precedence.wrap
  split
  · exact .inr ((hopen.append _).append _)
  · exact h

theorem Operand.isCited_within {d : Diagnostic} {o : Operand} (h : d.IsCited o.text)
    (outer : Precedence) : d.IsCited (o.within outer) := by
  have hopen : IsOpen "(" := isOpen_of_head? (c := '(') rfl rfl (by decide)
  unfold Operand.within Precedence.wrap
  split
  · exact (h.append_left hopen).append_right ")"
  · exact h

namespace Emit

open Recipe

/-! ## Stacks -/

section Stacks

variable (p : Project) {d : Diagnostic} {uses : BlockId → Fragment → Prop} {told : Prop}

theorem member_conveys {x : BlockId}
    (h : p.workspace.takesPart x = true → ∀ found, ¬uses x (.expression found)) :
    (member p x).Conveys d uses told IsClosed fun text => told ∨ d.IsShown text := by
  unfold member
  split
  · exact .pure isClosed_empty .inl
  · next b hb =>
    split
    · exact .pure isClosed_empty .inl
    · next hdisabled =>
      have htakes := Workspace.takesPart_eq_true_iff.2 ⟨b, hb, Bool.eq_false_iff.2 hdisabled⟩
      refine Conveys.code.bind fun g hg => ?_
      cases g with
      | statement text => exact .pure hg.closed (Or.imp_right And.left)
      | expression found =>
        exact .pure isClosed_empty (Or.imp_right fun hg => absurd hg.2 (h htakes found))

/-- A stack shows what its members show, if no value in it is used. -/
theorem chain_conveys {head : BlockId}
    (h : ∀ x ∈ (p.workspace.chainFrom head).members, p.workspace.takesPart x = true →
      ∀ found, ¬uses x (.expression found)) :
    (chain p head).Conveys d uses told IsClosed fun text => told ∨ d.IsShown text := by
  have hend : ∀ repeated, ∀ told, (chainEnd p repeated).Conveys d uses told IsClosed
      fun text => told ∨ d.IsShown text := by
    intro repeated told
    unfold chainEnd
    split
    · exact .diagnose
    · exact .pure isClosed_empty .inl
  refine (Conveys.concat ?_).bind fun body hbody => (hend _ _).bind fun close hclose =>
    .pure (hbody.append hclose) ?_
  · intro r hr told
    obtain ⟨x, hx, rfl⟩ := List.mem_map.1 hr
    exact member_conveys p (h x hx)
  · rintro ((htold | hshown) | hshown)
    · exact .inl htold
    · exact .inr (hshown.append_right close)
    · exact .inr (hshown.append_left hbody)

end Stacks

variable (p : Project) (b : Block) {d : Diagnostic} (hd : d.IsOneLine) {told : Prop}

/-- A recipe of a block conveys a diagnostic, given that what the block leaves out is not used. -/
def BlockConveys (d : Diagnostic) {α : Type} (told : Prop) (sound shown : α → Prop)
    (r : Recipe α) : Prop :=
  r.Conveys d (fun x g => ¬p.LeavesOut b x g) told sound shown

variable {p b}

theorem BlockConveys.mono {α : Type} {sound shown sound' shown' : α → Prop} {r : Recipe α}
    (h : BlockConveys p b d told sound shown r) (hsound : ∀ a, sound a → sound' a)
    (hshown : ∀ a, shown a → shown' a) : BlockConveys p b d told sound' shown' r :=
  Conveys.mono h hsound hshown

variable (p b)

include hd

theorem body_conveys (socket : String) :
    BlockConveys p b d told IsClosed (fun text => told ∨ d.IsShown text) (body p b socket) := by
  unfold body
  split
  · exact .pure isClosed_empty .inl
  · next head hhead =>
    have hspaces : ∀ c ∈ indentation.toList, c = ' ' := by simp [indentation]
    have hchain : (chain p head).Conveys d (fun x g => ¬p.LeavesOut b x g) told IsClosed
        fun text => told ∨ d.IsShown text := by
      refine chain_conveys p fun x hx htakes found huses => ?_
      have hfilled : x ∈ p.filled b (.stack socket) :=
        Project.mem_filled_stack.2 ⟨head, hhead, hx, htakes⟩
      exact huses (.value found hfilled)
    exact hchain.bind fun text htext => .pure (htext.indent indentation)
      (Or.imp_right (·.indent hd hspaces))

/-! ## Values -/

theorem operand_conveys (socket : String) :
    BlockConveys p b d told (fun found => ∀ o ∈ found, IsSettled o.text)
      (fun found => told ∨ ∃ o ∈ found, d.IsCited o.text) (operand p b socket) := by
  have hcited : ∀ comment, told ∨ d.IsShown comment → told ∨ ∃ o ∈ some (Operand.atom
      (Comment.beforeValue comment (p.socketDefault b socket))), d.IsCited o.text :=
    fun comment => Or.imp_right fun h => ⟨_, rfl, h.cited hd _⟩
  have hsettled : ∀ comment, ∀ o ∈ some (Operand.atom
      (Comment.beforeValue comment (p.socketDefault b socket))), IsSettled o.text := by
    rintro comment _ ⟨⟩
    exact .inr (isOpen_of_head? (Comment.head?_beforeValue comment _) rfl (by decide))
  cases hplugged : p.plugged? b socket with
  | none =>
    rw [operand_of_empty hplugged]
    exact .pure nofun .inl
  | some plugged =>
    obtain ⟨id, child⟩ := plugged
    rw [operand_of_plugged hplugged]
    refine Conveys.code.bind fun g hg => ?_
    cases g with
    | expression found =>
      refine .pure ?_ (Or.imp_right fun h => ⟨found, rfl, h.1⟩)
      rintro _ ⟨⟩
      exact hg.settled found rfl
    | statement text =>
      dsimp only
      split
      · refine .pure (hsettled text) fun htold => hcited text ?_
        exact htold.imp_right And.left
      · next hdiagnostic =>
        -- statements that are no diagnostic are left out
        have hout : p.LeavesOut b id (.statement text) :=
          .statement (Project.mem_filled_value.2 ⟨child, hplugged⟩) (Bool.eq_false_iff.2 hdiagnostic)
        refine Conveys.diagnose.bind fun comment _ => .pure (hsettled comment) fun htold =>
          hcited comment ?_
        rcases htold with (htold | ⟨-, huses⟩) | hshown
        · exact .inl htold
        · exact absurd hout huses
        · exact .inr hshown

omit hd in
theorem isSettled_socketDefault (socket : String) : IsSettled (p.socketDefault b socket) := by
  have htest : (p.socketDefault b socket).toList.head?.any (fun c => !isBlank c && c != '"') = true ∨
      p.socketDefault b socket = quote "" :=
    socketDefault_of_forall (P := fun text => text.toList.head?.any (fun c => !isBlank c && c != '"') =
      true ∨ text = quote "") p b (by decide) (by decide +kernel) socket
  rcases htest with hopen | hempty
  · obtain ⟨c, hc, htest⟩ := (Option.any_eq_true _ _).1 hopen
    simp only [Bool.and_eq_true, Bool.not_eq_true', bne_iff_ne] at htest
    exact .inr (isOpen_of_head? hc htest.1 htest.2)
  · exact .inl ⟨"", hempty⟩

theorem operandOrDefault_conveys (socket : String) :
    BlockConveys p b d told (fun o => IsSettled o.text) (fun o => told ∨ d.IsCited o.text)
      (operandOrDefault p b socket) := by
  refine (operand_conveys p b hd socket).bind fun found hfound => ?_
  cases found with
  | some o =>
    refine .pure (hfound o rfl) (Or.imp_right ?_)
    rintro ⟨_, ⟨⟩, hcited⟩
    exact hcited
  | none =>
    refine .pure (isSettled_socketDefault p b socket) (Or.imp_right ?_)
    rintro ⟨_, ⟨⟩, -⟩

theorem value?_conveys (socket : String) (outer : Precedence) :
    BlockConveys p b d told (fun found => ∀ text ∈ found, IsSettled text)
      (fun found => told ∨ ∃ text ∈ found, d.IsCited text) (value? p b socket outer) := by
  refine (operand_conveys p b hd socket).bind fun found hfound => .pure ?_ (Or.imp_right ?_)
  · intro text htext
    obtain ⟨o, ho, rfl⟩ := Option.map_eq_some_iff.1 htext
    exact Operand.isSettled_within (hfound o ho) outer
  · rintro ⟨o, ho, hcited⟩
    exact ⟨_, Option.map_eq_some_iff.2 ⟨o, ho, rfl⟩, Operand.isCited_within hcited outer⟩

theorem value_conveys (socket : String) (outer : Precedence) :
    BlockConveys p b d told IsSettled (fun text => told ∨ d.IsCited text)
      (value p b socket outer) := by
  refine (value?_conveys p b hd socket outer).bind fun found hfound => ?_
  cases found with
  | some text =>
    refine .pure (hfound text rfl) (Or.imp_right ?_)
    rintro ⟨_, ⟨⟩, hcited⟩
    exact hcited
  | none =>
    refine .pure (isSettled_socketDefault p b socket) (Or.imp_right ?_)
    rintro ⟨_, ⟨⟩, -⟩

/-- A literal that is clamped shows nothing. -/
theorem clampedValue_conveys (socket : String) (low high : Int) (outer : Precedence) :
    BlockConveys p b d told (fun _ => True) (fun text => told ∨ d.IsCited text)
      (clampedValue p b socket low high outer) := by
  refine (operandOrDefault_conveys p b hd socket).bind fun found _ => ?_
  split
  · next n hn =>
    refine .pure trivial (Or.imp_right fun hcited => ?_)
    rw [hcited.not_integer] at hn
    cases hn
  · exact .pure trivial (Or.imp_right (Operand.isCited_within · outer))

theorem pin_conveys (socket : String) :
    BlockConveys p b d told (fun _ => True) (fun text => told ∨ d.IsCited text)
      (pin p b socket) := by
  unfold pin
  split
  · exact (value_conveys p b hd socket .anything).mono (fun _ _ => trivial) fun _ => id
  · exact .pure trivial .inl

end Emit

end BlockCompiler
