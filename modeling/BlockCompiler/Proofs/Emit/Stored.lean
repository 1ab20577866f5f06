import BlockCompiler.Proofs.Emit.Initializer
import BlockCompiler.Proofs.Emit.Shown
import BlockCompiler.Proofs.Emission.Chronicle

set_option autoImplicit false

/-! # Code that is stored

An initializer puts the code of its sockets into a statement that runs before the main program. What
the recipe is told of a diagnostic is shown by that statement, under a key that no other recipe
registers. -/

namespace BlockCompiler

open Text Comment

namespace Recipe

variable {α β : Type} {d : Diagnostic} {uses : BlockId → Fragment → Prop} {key : String}
  {told : Prop}

/-- If the diagnostic was told of, before or on the path, a setup is stored under the key, and whatever
is written there shows the diagnostic. -/
def Stores (d : Diagnostic) (uses : BlockId → Fragment → Prop) (key : String) (told : Prop)
    (r : Recipe α) : Prop :=
  ∀ es a, Path r es a → (∀ id g, .made id g ∈ es → g.IsSound) →
    (told ∨ ∃ e ∈ es, e.Tells d uses) →
      (∃ action ∈ Event.actions es, action.Registers .setups key) ∧
      ∀ e ∈ es, ∀ text, e.Writes .setups key text → Holds d.note text

/-- Nothing is told of. -/
theorem Stores.pure {a : α} (h : ¬told) : (Pure.pure a : Recipe α).Stores d uses key told := by
  intro es b hpath _
  obtain ⟨rfl, rfl⟩ := hpath.of_pure
  rintro (htold | ⟨e, he, -⟩)
  · exact absurd htold h
  · cases he

/-- A recipe that writes no setup goes first. -/
theorem Stores.bind {r : Recipe α} {f : α → Recipe β} {sound shown : α → Prop}
    (hr : r.Conveys d uses told sound shown)
    (hwrites : ∀ es a, Path r es a → (∀ id g, .made id g ∈ es → g.IsSound) →
      ∀ e ∈ es, ∀ text, ¬e.Writes .setups key text)
    (hf : ∀ a, (f a).Stores d uses key (shown a)) : (r >>= f).Stores d uses key told := by
  intro es b hpath hmade htold
  obtain ⟨es₁, a, es₂, rfl, h₁, h₂⟩ := hpath.of_bind
  have hmade₁ : ∀ id g, .made id g ∈ es₁ → g.IsSound := fun id g hg =>
    hmade id g (List.mem_append_left _ hg)
  obtain ⟨-, hshown⟩ := hr es₁ a h₁ hmade₁
  have htold₂ : shown a ∨ ∃ e ∈ es₂, e.Tells d uses := by
    rcases htold with htold | ⟨e, he, htells⟩
    · exact .inl (hshown (.inl htold))
    · rcases List.mem_append.1 he with he | he
      · exact .inl (hshown (.inr ⟨e, he, htells⟩))
      · exact .inr ⟨e, he, htells⟩
  obtain ⟨⟨action, haction, hregisters⟩, hheld⟩ :=
    hf a es₂ b h₂ (fun id g hg => hmade id g (List.mem_append_right _ hg)) htold₂
  refine ⟨⟨action, ?_, hregisters⟩, fun e he text hwrite => ?_⟩
  · rw [Event.actions_append]
    exact List.mem_append_right _ haction
  · rcases List.mem_append.1 he with he | he
    · exact absurd hwrite (hwrites es₁ a h₁ hmade₁ e he text)
    · exact hheld e he text hwrite

/-- The setup is stored. -/
theorem Stores.perform {action : Action} {f : action.Answer → Recipe β} {b : β} {text : String}
    (haction : action = .register .setups key text ∨ action = .replaceSetup key text)
    (hf : ∀ answer, f answer = Pure.pure b) (h : told → Holds d.note text) :
    (Recipe.perform action >>= f).Stores d uses key told := by
  intro es b' hpath _ htold
  obtain ⟨es₁, answer, es₂, rfl, hperform, hpure⟩ := hpath.of_bind
  rw [hf] at hpure
  obtain ⟨rfl, -⟩ := hpure.of_pure
  obtain rfl := hperform.of_perform
  have htold' : told := by
    refine htold.resolve_right ?_
    rintro ⟨e, he, htells⟩
    obtain rfl := List.mem_singleton.1 he
    obtain rfl : action = .diagnose d := htells
    rcases haction with haction | haction <;> cases haction
  constructor
  · refine ⟨action, List.mem_singleton_self _, ?_⟩
    rcases haction with rfl | rfl
    · exact ⟨rfl, rfl⟩
    · exact ⟨rfl, rfl⟩
  · intro e he text' hwrites
    obtain rfl := List.mem_singleton.1 he
    rcases haction with rfl | rfl
    · cases hwrites
      exact h htold'
    · cases hwrites
      exact h htold'

end Recipe

namespace Emit

open Recipe

variable (p : Project) (b : Block) {d : Diagnostic} {key : String} {told : Prop}

/-! ## Initializers -/

/-- A pin is read first. -/
theorem stores_bind_pin (hd : d.IsOneLine) {socket : String} {α : Type} {f : String → Recipe α}
    (hf : ∀ text, (f text).Stores d (fun x g => ¬p.LeavesOut b x g) key (told ∨ d.IsCited text)) :
    (pin p b socket >>= f).Stores d (fun x g => ¬p.LeavesOut b x g) key told := by
  refine Stores.bind (pin_conveys p b hd socket) ?_ hf
  intro es text hpath hmade e he value hwrites
  have hclosed : ∀ e ∈ es, e.IsClosed := by
    intro e he
    cases e with
    | made id g => exact (hmade id g he).closed
    | did action answer => trivial
    | drew n => trivial
  have hmeets : (pin p b socket).Meets (p.filled b (.value socket))
      (fun action => ∃ d, action = .diagnose d) fun _ => True :=
    pin_meets p b socket fun d _ => ⟨d, rfl⟩
  have hactions := (hmeets es text hpath hclosed).2.1
  cases hwrites with
  | new => exact nomatch hactions _ (List.mem_filterMap.2 ⟨_, he, rfl⟩)
  | replaced => exact nomatch hactions _ (List.mem_filterMap.2 ⟨_, he, rfl⟩)

/-- A text of another section is registered first. -/
theorem stores_bind_ensure {uses : BlockId → Fragment → Prop} {part : Section} {key' text : String}
    (hpart : part ≠ .setups) {α : Type} {f : Unit → Recipe α}
    (hf : ∀ answer, (f answer).Stores d uses key told) :
    (ensure part key' text >>= f).Stores d uses key told := by
  refine Stores.bind Conveys.ensure ?_ hf
  intro es _ hpath _ e he value hwrites
  obtain ⟨es₁, answer, es₂, rfl, hregister, hpure⟩ := hpath.of_bind
  obtain ⟨rfl, -⟩ := hpure.of_pure
  obtain rfl := hregister.of_perform
  obtain rfl := List.mem_singleton.1 he
  cases hwrites
  exact hpart rfl

theorem stores_ensure {uses : BlockId → Fragment → Prop} {text : String} {α : Type} {a : α}
    (h : told → Holds d.note text) :
    (ensure .setups key text >>= fun _ => pure a).Stores d uses key told := by
  have hensure : (ensure .setups key text >>= fun _ => pure a) =
      perform (.register .setups key text) >>= fun _ => (pure a : Recipe α) := rfl
  rw [hensure]
  exact Stores.perform (.inl rfl) (fun _ => rfl) h

/-- What an initializer is told while it sets up is shown by the statement that it stores. -/
theorem setUp_stores (hd : d.IsOneLine) {kind : Kind} (hkey : setupKey? kind = some key) :
    (setUp p b kind).Stores d (fun x g => ¬p.LeavesOut b x g) key False := by
  have hincludes : Section.includes ≠ .setups := nofun
  have hglobals : Section.globals ≠ .setups := nofun
  cases kind with
  | soundInit =>
    obtain rfl := Option.some_inj.1 hkey
    refine stores_bind_pin p b hd fun left => stores_bind_pin p b hd fun right => ?_
    refine stores_bind_ensure hincludes fun _ => stores_bind_ensure hglobals fun _ => ?_
    exact stores_ensure fun _ => by grind
  | cardInit =>
    obtain rfl := Option.some_inj.1 hkey
    refine stores_bind_pin p b hd fun dataOut => stores_bind_pin p b hd fun clock => ?_
    refine stores_bind_pin p b hd fun dataIn => stores_bind_pin p b hd fun select => ?_
    refine Stores.perform (.inr rfl) (fun _ => rfl) fun htold => ?_
    have hpins : ∃ text ∈ [dataOut, clock, dataIn, select], Holds d.note text := by
      rcases htold with (((hfalse | hcited) | hcited) | hcited) | hcited
      · exact hfalse.elim
      · exact ⟨dataOut, by simp, hcited.holds⟩
      · exact ⟨clock, by simp, hcited.holds⟩
      · exact ⟨dataIn, by simp, hcited.holds⟩
      · exact ⟨select, by simp, hcited.holds⟩
    obtain ⟨text, htext, hholds⟩ := hpins
    exact ((hholds.intercalate htext ", ").append_left _).append_right _
  | driveInit =>
    obtain rfl := Option.some_inj.1 hkey
    have hpins : (drivePins p b >>= fun _ => pure "").Stores d (fun x g => ¬p.LeavesOut b x g)
        "robot_pins" False := by
      unfold drivePins
      simp only [LawfulMonad.bind_assoc]
      refine stores_bind_pin p b hd fun left => stores_bind_pin p b hd fun right => ?_
      exact stores_ensure fun _ => by grind
    refine stores_bind_ensure hincludes fun _ => ?_
    split
    · exact hpins
    · exact .pure not_false
  | _ => cases hkey

/-- The statement of an initializer is registered by blocks of its kind only, and by blocks that use the
card if there is no initializer of that. -/
theorem Allowed.eq_of_setupKey {kind kind' : Kind} {action : Action} (h : Allowed p b kind' action)
    (hkey : setupKey? kind = some key) (hregisters : action.Registers .setups key) :
    kind' = kind ∨ (kind = .cardInit ∧ p.has .cardInit = false) := by
  have htable : ∀ kind ∈ Kind.all, ∀ kind' ∈ Kind.all, ∀ key ∈ setupKey? kind,
      (.setups, key) ∈ ownKeys kind' → kind' = kind := by decide +kernel
  have hhead : ∀ kind ∈ Kind.all, ∀ key ∈ setupKey? kind, key.toList.head? ≠ some 'c' := by
    decide +kernel
  have hcard : ∀ kind ∈ Kind.all, setupKey? kind = some cardSetup → kind = .cardInit := by
    decide +kernel
  cases h with
  | own text hown _ =>
    obtain ⟨rfl, rfl⟩ := hregisters
    exact .inl (htable kind (Kind.mem_all kind) kind' (Kind.mem_all kind') key hkey hown)
  | snippet text _ _ =>
    obtain ⟨-, rfl⟩ := hregisters
    refine absurd ?_ (hhead kind (Kind.mem_all kind) _ hkey)
    rw [String.toList_append]
    rfl
  | mount text _ hnone =>
    obtain ⟨-, rfl⟩ := hregisters
    exact .inr ⟨hcard kind (Kind.mem_all kind) hkey, hnone⟩
  | remount text hkind =>
    obtain ⟨-, rfl⟩ := hregisters
    exact .inl (hkind.trans (hcard kind (Kind.mem_all kind) hkey).symm)
  | array | prototype | function => exact nomatch hregisters.1
  | inferType | setType | setLength | diagnose => exact hregisters.elim

end Emit

end BlockCompiler
