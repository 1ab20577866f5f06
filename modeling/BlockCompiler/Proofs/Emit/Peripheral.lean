import BlockCompiler.Proofs.Context
import BlockCompiler.Proofs.Emit.Initializer
import BlockCompiler.Proofs.Emit.Layout

set_option autoImplicit false

/-! # Peripherals

Some library calls need a device on the board that has to be set up before. Its initializer registers
what sets it up, under keys that no other block registers; only a card on a board with a socket of its
own is mounted by the very blocks that use it, as long as no initializer says otherwise. Where a check
of the card fails, a comment stands for the code, which is none of the library calls. -/

namespace BlockCompiler

/-- A device on the board that has to be set up before it is used. -/
inductive Peripheral where
  | modulation
  | mixer
  | card
  | drive
  deriving Repr, DecidableEq

namespace Peripheral

/-- The kind of block that sets a peripheral up. -/
def initializer : Peripheral → Kind
  | .modulation => .pwmStart
  | .mixer => .soundInit
  | .card => .cardInit
  | .drive => .driveInit

/-- What setting a peripheral up registers for certain. The modulation is started by a call where its
initializer stands, and registers nothing. -/
def keys : Peripheral → List (Section × String)
  | .modulation => []
  | .mixer => [(.globals, "sound_handle"), (.setups, "sound_init")]
  | .card => [(.setups, Emit.cardSetup)]
  | .drive => [(.includes, "robot_drive")]

/-- An initializer has a name of its own. -/
theorem exists_label (peripheral : Peripheral) :
    ∃ label, Emit.initializerLabel? peripheral.initializer = some label := by
  cases peripheral <;> exact ⟨_, rfl⟩

theorem head?_key {peripheral : Peripheral} {part : Section} {key : String}
    (h : (part, key) ∈ peripheral.keys) :
    part ≠ .declarations ∧ part ≠ .methods ∧ ∃ c ∈ ['s', 'r'], key.toList.head? = some c := by
  cases peripheral <;> simp only [keys, List.mem_cons, Prod.mk.injEq, List.not_mem_nil, or_false] at h
  · rcases h with ⟨rfl, rfl⟩ | ⟨rfl, rfl⟩ <;> exact ⟨nofun, nofun, 's', by decide, rfl⟩
  · obtain ⟨rfl, rfl⟩ := h
    exact ⟨nofun, nofun, 's', by decide, rfl⟩
  · obtain ⟨rfl, rfl⟩ := h
    exact ⟨nofun, nofun, 'r', by decide, rfl⟩

/-- A key of a peripheral has none of the starts that users' names are put behind. -/
theorem key_ne_append {peripheral : Peripheral} {part : Section} {key start rest : String} {c : Char}
    (h : (part, key) ∈ peripheral.keys) (hstart : start.toList.head? = some c)
    (hc : c ∉ ['s', 'r']) : key ≠ start ++ rest := by
  rintro rfl
  obtain ⟨-, -, c', hc', hhead⟩ := head?_key h
  rw [String.toList_append, List.head?_append, hstart] at hhead
  obtain rfl : c = c' := Option.some_inj.1 hhead
  exact hc hc'

/-- Of the keys that kinds of blocks have of their own, those of a peripheral are its initializer's. -/
theorem eq_initializer_of_mem_ownKeys {peripheral : Peripheral} {kind : Kind}
    {key : Section × String} (h : key ∈ peripheral.keys) (hown : key ∈ Emit.ownKeys kind) :
    kind = peripheral.initializer := by
  have htable : ∀ kind ∈ Kind.all, ∀ peripheral ∈ [modulation, mixer, card, drive],
      ∀ key ∈ peripheral.keys, key ∈ Emit.ownKeys kind → kind = peripheral.initializer := by
    decide +kernel
  refine htable kind (Kind.mem_all kind) peripheral ?_ key h hown
  cases peripheral <;> decide

end Peripheral

/-- The peripheral that blocks of a kind need. -/
def Kind.peripheral? : Kind → Option Peripheral
  | .pwmSet => some .modulation
  | .soundPlay => some .mixer
  | .wavPlay | .fileOpen | .fileRead | .fileWrite | .fileClose => some .card
  | .driveGoto | .driveSpeed | .driveStop => some .drive
  | _ => none

namespace Emit

/-! ## Who registers the keys -/

variable {p : Project} {b : Block} {kind : Kind}

/-- The keys of a peripheral are registered by its initializer, and by a block that needs the card if
no initializer is there. -/
theorem Allowed.eq_initializer {action : Action} (h : Allowed p b kind action)
    {peripheral : Peripheral} {part : Section} {key : String}
    (hkey : (part, key) ∈ peripheral.keys) (hregisters : action.Registers part key) :
    kind = peripheral.initializer ∨ (peripheral = .card ∧ p.has .cardInit = false) := by
  have hcard : (.setups, cardSetup) ∈ peripheral.keys → peripheral = .card := by
    cases peripheral <;> decide
  -- keys with a name of the user in them start with other letters
  cases h with
  | own text hown _ =>
    obtain ⟨rfl, rfl⟩ := hregisters
    exact .inl (Peripheral.eq_initializer_of_mem_ownKeys hkey hown)
  | snippet text _ _ =>
    obtain ⟨-, rfl⟩ := hregisters
    exact absurd rfl (Peripheral.key_ne_append (c := 'c') hkey rfl (by decide))
  | array size _ =>
    obtain ⟨-, rfl⟩ := hregisters
    exact absurd rfl (Peripheral.key_ne_append (c := 'a') hkey rfl (by decide))
  | prototype =>
    obtain ⟨rfl, -⟩ := hregisters
    exact absurd rfl (Peripheral.head?_key hkey).1
  | function =>
    obtain ⟨rfl, -⟩ := hregisters
    exact absurd rfl (Peripheral.head?_key hkey).2.1
  | mount text _ hnone =>
    obtain ⟨rfl, rfl⟩ := hregisters
    exact .inr ⟨hcard hkey, hnone⟩
  | remount text hkind =>
    obtain ⟨rfl, rfl⟩ := hregisters
    rw [hcard hkey]
    exact .inl hkind
  | inferType | setType | setLength | diagnose => exact hregisters.elim

end Emit

/-! ## What is registered on every path -/

namespace Recipe

/-- Every path of a recipe registers a text under a key. -/
def Registers {α : Type} (part : Section) (key : String) (r : Recipe α) : Prop :=
  ∀ es a, Path r es a → ∃ action ∈ Event.actions es, action.Registers part key

variable {α β : Type} {part : Section} {key : String} {r : Recipe α} {f : α → Recipe β}

theorem Registers.bind_left (h : r.Registers part key) : (r >>= f).Registers part key := by
  intro es b hpath
  obtain ⟨es₁, a, es₂, rfl, h₁, -⟩ := hpath.of_bind
  obtain ⟨action, haction, hregisters⟩ := h es₁ a h₁
  rw [Event.actions_append]
  exact ⟨action, List.mem_append_left _ haction, hregisters⟩

theorem Registers.bind_right (h : ∀ a, (f a).Registers part key) : (r >>= f).Registers part key := by
  intro es b hpath
  obtain ⟨es₁, a, es₂, rfl, -, h₂⟩ := hpath.of_bind
  obtain ⟨action, haction, hregisters⟩ := h a es₂ b h₂
  rw [Event.actions_append]
  exact ⟨action, List.mem_append_right _ haction, hregisters⟩

theorem registers_perform {action : Action} (h : action.Registers part key) :
    (perform action).Registers part key := by
  intro es answer hpath
  rw [hpath.of_perform]
  exact ⟨action, List.mem_singleton_self action, h⟩

theorem registers_ensure (part : Section) (key text : String) :
    (ensure part key text).Registers part key :=
  have hperform : (perform (.register part key text)).Registers part key :=
    registers_perform ⟨rfl, rfl⟩
  hperform.bind_left

end Recipe

namespace Emit

variable (p : Project) (b : Block)

/-- Setting a peripheral up registers all its keys. -/
theorem setUp_registers {peripheral : Peripheral} {part : Section} {key : String}
    (h : (part, key) ∈ peripheral.keys) :
    (setUp p b peripheral.initializer).Registers part key := by
  cases peripheral <;>
    simp only [Peripheral.keys, List.mem_cons, Prod.mk.injEq, List.not_mem_nil, or_false] at h
  · rcases h with ⟨rfl, rfl⟩ | ⟨rfl, rfl⟩
    · refine .bind_right fun left => .bind_right fun right => .bind_right fun _ => ?_
      exact (Recipe.registers_ensure _ _ _).bind_left
    · refine .bind_right fun left => .bind_right fun right => .bind_right fun _ => ?_
      exact .bind_right fun _ => (Recipe.registers_ensure _ _ _).bind_left
  · obtain ⟨rfl, rfl⟩ := h
    have hmount : ∀ text, (Recipe.perform (.replaceSetup cardSetup text)).Registers .setups
        cardSetup := fun _ => Recipe.registers_perform ⟨rfl, rfl⟩
    refine .bind_right fun dataOut => .bind_right fun clock => .bind_right fun dataIn => ?_
    exact .bind_right fun select => (hmount _).bind_left
  · obtain ⟨rfl, rfl⟩ := h
    exact (Recipe.registers_ensure _ _ _).bind_left

/-! ## Cards without an initializer -/

/-- A path registers the mounting of the card. -/
def Mounts (es : List Event) : Prop :=
  ∃ action ∈ Event.actions es, action.Registers .setups cardSetup

variable {p b} {es : List Event}

theorem Mounts.append (h : Mounts es) (es' : List Event) : Mounts (es ++ es') := by
  obtain ⟨action, haction, hregisters⟩ := h
  refine ⟨action, ?_, hregisters⟩
  rw [Event.actions_append]
  exact List.mem_append_left _ haction

/-- Without an initializer, the check for the card mounts it or warns. -/
theorem cardWarning?_mounts (hnone : p.has .cardInit = false) {warning : Option String}
    (hpath : (cardWarning? p b).Path es warning) :
    Mounts es ∨ ∃ d : Diagnostic, warning = some d.comment := by
  unfold cardWarning? at hpath
  rw [hnone, if_neg Bool.false_ne_true] at hpath
  split at hpath
  · refine .inl (Recipe.Registers.bind_left ?_ es warning hpath)
    exact Recipe.registers_ensure _ _ _
  · obtain ⟨es₁, line, es₂, rfl, hwarning, hpure⟩ := hpath.of_bind
    obtain ⟨rfl, rfl⟩ := hpure.of_pure
    obtain ⟨d, -, -, rfl⟩ := Recipe.Path.of_diagnose hwarning
    exact .inr ⟨d, rfl⟩

theorem fileWarning?_mounts (hnone : p.has .cardInit = false) {warning : Option String}
    (hpath : (fileWarning? p b).Path es warning) :
    Mounts es ∨ ∃ d : Diagnostic, warning = some d.comment := by
  obtain ⟨es₁, found, es₂, rfl, hcheck, hrest⟩ := hpath.of_bind
  rcases cardWarning?_mounts hnone hcheck with hmounts | ⟨d, rfl⟩
  · exact .inl (hmounts.append es₂)
  · obtain ⟨-, rfl⟩ := hrest.of_pure
    exact .inr ⟨d, rfl⟩

/-- A block that goes on only if its check does not warn. -/
theorem mounts_of_check {check : Recipe (Option String)} {code : Recipe String}
    (hcheck : ∀ es warning, check.Path es warning →
      Mounts es ∨ ∃ d : Diagnostic, warning = some d.comment) {text : String}
    (hpath : Recipe.Path (do
      match ← check with
      | some line => return line
      | none => code) es text) : Mounts es ∨ ∃ d : Diagnostic, text = d.comment := by
  obtain ⟨es₁, found, es₂, rfl, hfound, hrest⟩ := hpath.of_bind
  rcases hcheck es₁ found hfound with hmounts | ⟨d, rfl⟩
  · exact .inl (hmounts.append es₂)
  · obtain ⟨-, rfl⟩ := hrest.of_pure
    exact .inr ⟨d, rfl⟩

/-- Without an initializer, a block that needs the card mounts it or yields a comment. -/
theorem recipe_mounts (hnone : p.has .cardInit = false) {id : BlockId} {kind : Kind}
    (hkind : Kind.ofName? b.type = some kind) (hneeds : kind.peripheral? = some .card) {text : String}
    (hpath : (recipe p id b).Path es (.statement text)) :
    Mounts es ∨ ∃ d : Diagnostic, text = d.comment := by
  rw [recipe_of_kind hkind] at hpath
  cases kind with
  | wavPlay | fileOpen =>
    obtain ⟨es₁, _, es₂, rfl, hcode, hpure⟩ := hpath.of_bind
    obtain ⟨rfl, ⟨⟩⟩ := hpure.of_pure
    rw [List.append_nil]
    exact mounts_of_check (fun _ _ => cardWarning?_mounts hnone) hcode
  | fileRead | fileWrite | fileClose =>
    obtain ⟨es₁, _, es₂, rfl, hcode, hpure⟩ := hpath.of_bind
    obtain ⟨rfl, ⟨⟩⟩ := hpure.of_pure
    rw [List.append_nil]
    exact mounts_of_check (fun _ _ => fileWarning?_mounts hnone) hcode
  | _ => cases hneeds

/-! ## Calls -/

/-- How the library calls start that a block makes because it needs a peripheral. -/
def calls : Kind → List String
  | .pwmSet => ["pwm_set("]
  | .soundPlay => ["sound_volume(", "sound_wave(", "sound_freq("]
  | .wavPlay => ["wav_play("]
  | .fileOpen => ["fp = fopen("]
  | .fileRead => ["fread("]
  | .fileWrite => ["fwrite("]
  | .fileClose => ["fclose("]
  | .driveGoto => ["drive_goto("]
  | .driveSpeed | .driveStop => ["drive_speed(", "drive_speeds("]
  | _ => []

/-- A text is one of the library calls of a kind. -/
def IsCall (kind : Kind) (text : String) : Prop := ∃ call ∈ calls kind, ∃ rest, text = call ++ rest

theorem IsCall.ne_comment {kind : Kind} {text : String} (h : IsCall kind text) (d : Diagnostic) :
    text ≠ d.comment := by
  have htable : ∀ kind ∈ Kind.all, ∀ call ∈ calls kind, call.toList.head?.any (· != '/') = true := by
    decide +kernel
  obtain ⟨call, hcall, rest, rfl⟩ := h
  obtain ⟨c, hc, hne⟩ := (Option.any_eq_true _ _).1 (htable kind (Kind.mem_all kind) call hcall)
  have hhead : (call ++ rest).toList.head? = some c := by
    rw [String.toList_append, List.head?_append, hc]
    rfl
  exact Diagnostic.ne_comment hhead (bne_iff_ne.1 hne) d

/-! ## Checks -/

section Checks

open Recipe

/-- If a line stands for the code, it tells of a problem. -/
def IsProblem (found : Option String) : Prop := ∀ line ∈ found, ∃ d : Diagnostic, line = d.comment

theorem warning_isProblem (about : Block) (message : String) :
    (do let line ← warning about message; return some line).Yields IsProblem := by
  intro es found hpath _
  obtain ⟨es₁, line, es₂, rfl, hwarning, hpure⟩ := hpath.of_bind
  obtain ⟨-, rfl⟩ := hpure.of_pure
  obtain ⟨d, -, -, rfl⟩ := Path.of_diagnose hwarning
  rintro _ ⟨⟩
  exact ⟨d, rfl⟩

variable (p b)

theorem cardWarning?_isProblem : (cardWarning? p b).Yields IsProblem := by
  unfold cardWarning?
  split
  · exact .pure nofun
  · split
    · exact (Yields.any _).bind fun _ _ => .pure nofun
    · exact warning_isProblem b _

theorem fileWarning?_isProblem : (fileWarning? p b).Yields IsProblem := by
  refine (cardWarning?_isProblem p b).bind fun found hfound => ?_
  cases found with
  | some line => exact .pure hfound
  | none =>
    dsimp only
    split
    · exact (Yields.any _).bind fun _ _ => .pure nofun
    · exact warning_isProblem b _

end Checks

end Emit

end BlockCompiler
