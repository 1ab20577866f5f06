import BlockCompiler.Proofs.Emit.Message

set_option autoImplicit false

/-! # Initializers

The recipe of an initializer takes one of two ways. If another block of the kind comes first in
program order, it records a warning and does nothing else. Otherwise it sets up what it is for, and
the only thing that it can find fault with is a statement where a value is expected. -/

namespace BlockCompiler

/-- Another block of the kind comes first in program order. -/
def Project.isLate (p : Project) (kind : Kind) (id : BlockId) : Bool :=
  (p.inOrder kind).head?.any (· != id)

namespace Emit

/-- The warning that an initializer yields that comes too late. -/
def lateWarning (label : String) (b : Block) : Diagnostic :=
  { severity := .warning, blockId := b.id, blockType := b.type, message := onlyOneMessage label }

/-- What an initializer does that comes first. -/
def setUp (p : Project) (b : Block) : Kind → Recipe String
  | .pwmStart => startPwm p b
  | .soundInit => startSound p b
  | .cardInit => mountCard p b
  | .driveInit => startDrive p b
  | _ => return ""

variable {p : Project} {b : Block} {kind : Kind} {label : String} {id : BlockId}

theorem recipe_of_initializer (hkind : Kind.ofName? b.type = some kind)
    (hlabel : initializerLabel? kind = some label) :
    recipe p id b = do
      let text ← initializer p id b kind label (setUp p b kind)
      return .statement text := by
  rw [recipe_of_kind hkind]
  cases kind with
  | pwmStart | soundInit | cardInit | driveInit =>
    cases hlabel
    rfl
  | _ => cases hlabel

theorem initializer_of_late (h : p.isLate kind id = true) (code : Recipe String) :
    initializer p id b kind label code = Recipe.warning b (onlyOneMessage label) := by
  unfold Project.isLate at h
  unfold initializer duplicateWarning?
  cases hhead : (p.inOrder kind).head? with
  | none => rw [hhead] at h; cases h
  | some first =>
    rw [hhead, Option.any_some] at h
    have hne : (first == id) = false := by simpa using h
    simp only [hne, Bool.false_eq_true, if_false, bind_assoc, pure_bind]
    rfl

theorem initializer_of_not_late (h : p.isLate kind id = false) (code : Recipe String) :
    initializer p id b kind label code = code := by
  unfold Project.isLate at h
  unfold initializer duplicateWarning?
  cases hhead : (p.inOrder kind).head? with
  | none => rfl
  | some first =>
    rw [hhead, Option.any_some] at h
    have heq : (first == id) = true := by simpa using h
    simp only [heq, if_true, pure_bind]

/-! ## Paths -/

/-- A late initializer records its warning and yields it. -/
theorem path_of_late (hkind : Kind.ofName? b.type = some kind)
    (hlabel : initializerLabel? kind = some label) (hlate : p.isLate kind id = true)
    {es : List Event} {fragment : Fragment} (hpath : (recipe p id b).Path es fragment) :
    Event.actions es = [.diagnose (lateWarning label b)] ∧
      fragment = .statement (lateWarning label b).comment := by
  rw [recipe_of_initializer hkind hlabel, initializer_of_late hlate] at hpath
  obtain ⟨es₁, text, es₂, rfl, hwarning, hpure⟩ := hpath.of_bind
  obtain ⟨rfl, rfl⟩ := hpure.of_pure
  obtain ⟨d, rfl, rfl, rfl⟩ := Recipe.Path.of_diagnose hwarning
  exact ⟨rfl, rfl⟩

/-- An initializer that is not late sets up what it is for. -/
theorem path_of_not_late (hkind : Kind.ofName? b.type = some kind)
    (hlabel : initializerLabel? kind = some label) (hlate : p.isLate kind id = false)
    {es : List Event} {fragment : Fragment} (hpath : (recipe p id b).Path es fragment) :
    ∃ text, fragment = .statement text ∧ (setUp p b kind).Path es text := by
  rw [recipe_of_initializer hkind hlabel, initializer_of_not_late hlate] at hpath
  obtain ⟨es₁, text, es₂, rfl, hcode, hpure⟩ := hpath.of_bind
  obtain ⟨rfl, rfl⟩ := hpure.of_pure
  exact ⟨text, rfl, (List.append_nil es₁).symm ▸ hcode⟩

/-! ## Setting up -/

/-- An action records nothing, or that statements stand where a value is expected. -/
def IsQuiet (action : Action) : Prop :=
  ∀ d, action = .diagnose d → d.message = noValueMessage

theorem isQuiet_diagnose (d : Diagnostic) (h : d.message = noValueMessage) :
    IsQuiet (.diagnose d) := by
  rintro _ ⟨⟩
  exact h

/-- What an initializer that is not late yields: a call if it is to stand where the block stands, and
else nothing. -/
def IsSetUp (kind : Kind) (text : String) : Prop :=
  (kind = .pwmStart ∧ ∃ rest, text = "pwm_start(" ++ rest) ∨ (kind ≠ .pwmStart ∧ text = "")

theorem IsSetUp.ne_comment {text : String} (h : IsSetUp kind text) (d : Diagnostic) :
    text ≠ d.comment := by
  rcases h with ⟨-, rest, rfl⟩ | ⟨-, rfl⟩
  · have hhead : ("pwm_start(" ++ rest).toList.head? = some 'p' := by
      rw [String.toList_append]
      rfl
    exact Diagnostic.ne_comment hhead (by decide) d
  · exact d.comment_ne_empty.symm

/-- Setting up is quiet. -/
theorem setUp_meets (p : Project) (b : Block) (kind : Kind) :
    ∃ plan, (setUp p b kind).Meets plan IsQuiet (IsSetUp kind) := by
  have hensure : ∀ part key text,
      (Recipe.ensure part key text).Meets [] IsQuiet fun _ => True := fun part key text =>
    (Recipe.Meets.perform (show IsQuiet (.register part key text) from nofun)).bind_nil
      fun _ _ => .pure trivial
  have hpin := fun socket => pin_meets p b socket isQuiet_diagnose
  have hempty : kind ≠ .pwmStart → (pure "" : Recipe String).Meets [] IsQuiet (IsSetUp kind) :=
    fun hne => .pure (.inr ⟨hne, rfl⟩)
  cases kind with
  | pwmStart =>
    refine ⟨_, (clampedValue_meets p b "PERIOD" isQuiet_diagnose 1 greatestInt32 .anything).bind_nil
      fun period _ => .pure (.inl ⟨rfl, period ++ ");\n", ?_⟩)⟩
    rw [String.append_assoc]
  | soundInit =>
    exact ⟨_, (hpin "PINL").bind fun _ _ => (hpin "PINR").bind fun _ _ =>
      (hensure _ _ _).bind fun _ _ => (hensure _ _ _).bind fun _ _ => (hensure _ _ _).bind
        fun _ _ => hempty nofun⟩
  | cardInit =>
    have hmount : ∀ text, (Recipe.perform (.replaceSetup cardSetup text)).Meets [] IsQuiet
        fun _ => True := fun text =>
      .perform (show IsQuiet (.replaceSetup cardSetup text) from nofun)
    exact ⟨_, (hpin "DO").bind fun _ _ => (hpin "CLK").bind fun _ _ => (hpin "DI").bind
      fun _ _ => (hpin "CS").bind fun _ _ => (hmount _).bind fun _ _ => hempty nofun⟩
  | driveInit =>
    have hpins : (drivePins p b).Meets
        (p.filled b (.value "LEFT") ++ p.filled b (.value "RIGHT")) IsQuiet fun _ => True :=
      (hpin "LEFT").bind fun _ _ => (hpin "RIGHT").bind_nil fun _ _ => hensure _ _ _
    refine ⟨p.filled b (.value "LEFT") ++ p.filled b (.value "RIGHT"), ?_⟩
    refine (hensure _ _ _).bind fun _ _ => ?_
    split
    · exact hpins.bind_nil fun _ _ => hempty nofun
    · exact (hempty nofun).of_nil _
  | _ => exact ⟨[], hempty nofun⟩

end Emit

end BlockCompiler
