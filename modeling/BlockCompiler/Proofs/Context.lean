import BlockCompiler.Context
import BlockCompiler.Emission
import Mathlib.Data.List.Nodup

set_option autoImplicit false

/-! # What actions leave alone

Actions only add: a diagnostic that was recorded stays recorded, and a key that was registered stays
registered. -/

namespace BlockCompiler

namespace Action

/-- The diagnostic that an action records. -/
def diagnostic? : Action → Option Diagnostic
  | .diagnose d => some d
  | _ => none

theorem perform_diagnostics (c : Context) (action : Action) :
    (action.perform c).2.diagnostics = c.diagnostics ++ action.diagnostic?.toList := by
  cases action with
  | register part key text => cases part <;> simp [perform, Context.withLedger, diagnostic?]
  | replaceSetup key text => simp [perform, diagnostic?]
  | inferType name text => cases h : c.types.get? name <;> simp [perform, h, diagnostic?]
  | setType name type => simp [perform, diagnostic?]
  | setLength name length => simp [perform, diagnostic?]
  | diagnose d => rfl

/-- Nothing that an action does depends on what was told before. -/
theorem perform_withDiagnostics (c : Context) (told : List Diagnostic) (action : Action) :
    action.perform { c with diagnostics := told } =
      ((action.perform c).1,
        { (action.perform c).2 with diagnostics := told ++ action.diagnostic?.toList }) := by
  cases action with
  | register part key text =>
    cases part <;> simp [perform, Context.ledger, Context.withLedger, diagnostic?]
  | replaceSetup key text => simp [perform, diagnostic?]
  | inferType name text => cases h : c.types.get? name <;> simp [perform, h, diagnostic?]
  | setType name type => simp [perform, diagnostic?]
  | setLength name length => simp [perform, diagnostic?]
  | diagnose d => simp [perform, diagnostic?]

end Action

/-- An action adds its diagnostic behind the others. -/
theorem Emission.perform_diagnostics (s : Emission) (action : Action) :
    (s.perform action).2.context.diagnostics =
      s.context.diagnostics ++ action.diagnostic?.toList :=
  action.perform_diagnostics s.context

theorem Emission.mem_perform_diagnostics {s : Emission} {action : Action} {d : Diagnostic}
    (h : d ∈ (s.perform action).2.context.diagnostics) :
    d ∈ s.context.diagnostics ∨ action = .diagnose d := by
  rw [perform_diagnostics] at h
  rcases List.mem_append.1 h with h | h
  · exact .inl h
  · cases action with
    | diagnose d' =>
      obtain rfl : d = d' := List.mem_singleton.1 h
      exact .inr rfl
    | _ => exact absurd h List.not_mem_nil

/-! ## Keys -/

namespace Ledger

variable {α : Type} (l : Ledger α) (key k : String) (value : α)

theorem contains_put : (l.put key value).contains k = true ↔ l.contains k = true ∨ k = key := by
  unfold contains
  rw [get?_put]
  split
  · next h => simp [eq_of_beq h]
  · next h =>
    have hne : k ≠ key := fun heq => h (beq_iff_eq.2 heq)
    simp [hne]

theorem contains_add : (l.add key value).contains k = true ↔ l.contains k = true ∨ k = key := by
  unfold add
  split
  · next h =>
    refine ⟨.inl, fun hk => hk.elim id ?_⟩
    rintro rfl
    exact h
  · next h =>
    by_cases hk : k = key
    · subst hk
      simp [contains, get?, List.lookup_append]
    · have hbeq : (k == key) = false := beq_eq_false_iff_ne.2 hk
      simp [contains, get?, List.lookup_append, List.lookup_cons, hbeq, hk]

/-- The first entry that is written counts. -/
theorem get?_add : (l.add key value).get? k =
    if (l.get? k).isNone && k == key then some value else l.get? k := by
  unfold add
  split
  · next h =>
    split
    · next hk =>
      obtain ⟨hnone, hkey⟩ := Bool.and_eq_true_iff.1 hk
      rw [eq_of_beq hkey, Option.isNone_iff_eq_none] at hnone
      rw [contains, hnone] at h
      cases h
    · rfl
  · unfold get?
    rw [List.lookup_append]
    cases h : l.entries.lookup k with
    | some text => rfl
    | none => cases hk : k == key <;> simp [List.lookup_cons, hk]

theorem contains_iff_mem_keys : l.contains key = true ↔ key ∈ l.keys := by
  simp only [contains, get?, List.lookup_isSome_iff, keys, List.mem_map]
  constructor
  · rintro ⟨entry, hentry, hkey⟩
    exact ⟨entry, hentry, (eq_of_beq hkey).symm⟩
  · rintro ⟨entry, hentry, rfl⟩
    exact ⟨entry, hentry, beq_self_eq_true _⟩

theorem nodup_concat {names : List α} {name : α} (h : names.Nodup) (hnew : name ∉ names) :
    (names ++ [name]).Nodup := by
  rw [List.nodup_append]
  refine ⟨h, by simp, fun k hk k' hk' heq => ?_⟩
  subst heq
  exact hnew (List.mem_singleton.1 hk' ▸ hk)

theorem keys_nodup_put (h : l.keys.Nodup) : (l.put key value).keys.Nodup := by
  rw [keys_put]
  split
  · exact h
  · next hnew => exact nodup_concat h hnew

/-- A name keeps its first place, and a new name comes last. -/
theorem keys_add : (l.add key value).keys = if key ∈ l.keys then l.keys else l.keys ++ [key] := by
  unfold add
  simp only [contains_iff_mem_keys]
  split
  · rfl
  · rw [keys, List.map_append]
    rfl

theorem keys_nodup_add (h : l.keys.Nodup) : (l.add key value).keys.Nodup := by
  rw [keys_add]
  split
  · exact h
  · next hnew => exact nodup_concat h hnew

variable {l key value}

theorem get?_eq_some_iff (h : l.keys.Nodup) :
    l.get? key = some value ↔ (key, value) ∈ l.entries := by
  refine ⟨fun hget => ?_, fun hmem => ?_⟩
  · obtain ⟨before, after, hentries, -⟩ := List.lookup_eq_some_iff.1 hget
    rw [hentries]
    exact List.mem_append_right _ List.mem_cons_self
  · obtain ⟨before, after, hentries⟩ := List.append_of_mem hmem
    refine List.lookup_eq_some_iff.2 ⟨before, after, hentries, fun entry hentry => ?_⟩
    -- another entry of the same name would stand in front of this one
    rw [keys, hentries, List.map_append] at h
    have hdisjoint := List.disjoint_of_nodup_append h (List.mem_map_of_mem hentry)
    exact bne_iff_ne.2 fun heq => hdisjoint (heq ▸ List.mem_cons_self)

/-- An entry is an old one or the new one. -/
theorem mem_add {entry : String × α} (h : entry ∈ (l.add key value).entries) :
    entry ∈ l.entries ∨ entry = (key, value) := by
  unfold add at h
  split at h
  · exact .inl h
  · exact (List.mem_append.1 h).imp_right List.mem_singleton.1

theorem mem_put {entry : String × α} (h : entry ∈ (l.put key value).entries) :
    entry ∈ l.entries ∨ entry = (key, value) := by
  have hputIn : ∀ entries : List (String × α), entry ∈ putIn key value entries →
      entry ∈ entries ∨ entry = (key, value) := by
    intro entries h
    induction entries with
    | nil => exact .inr (List.mem_singleton.1 h)
    | cons first rest ih =>
      rw [putIn] at h
      split at h
      · rcases List.mem_cons.1 h with h | h
        · exact .inr h
        · exact .inl (List.mem_cons_of_mem _ h)
      · rcases List.mem_cons.1 h with rfl | h
        · exact .inl List.mem_cons_self
        · exact (ih h).imp_left (List.mem_cons_of_mem _)
  exact hputIn _ h

theorem mem_keys_put {k : String} (h : k ∈ (l.put key value).keys) : k ∈ l.keys ∨ k = key := by
  rw [keys_put] at h
  split at h
  · exact .inl h
  · exact (List.mem_append.1 h).imp_right List.mem_singleton.1

/-- Entries stay in their order. -/
theorem sublist_add {entries : List (String × α)} (h : entries.Sublist l.entries) :
    entries.Sublist (l.add key value).entries := by
  unfold add
  split
  · exact h
  · exact h.trans (List.sublist_append_left _ _)

/-- Entries stay in their order when something is written under another key. -/
theorem sublist_put {entries : List (String × α)} (h : entries.Sublist l.entries)
    (hkey : ∀ e ∈ entries, e.1 ≠ key) : entries.Sublist (l.put key value).entries := by
  have hputIn : ∀ {es : List (String × α)}, entries.Sublist es →
      entries.Sublist (putIn key value es) := by
    intro es hes
    clear h
    induction hes with
    | slnil => exact List.nil_sublist _
    | cons e hes ih =>
      rw [putIn]
      split
      · exact hes.cons _
      · exact (ih hkey).cons e
    | @cons_cons _ _ e hes ih =>
      have hne : (key == e.1) = false :=
        beq_eq_false_iff_ne.2 (hkey e List.mem_cons_self).symm
      rw [putIn, hne, if_neg Bool.false_ne_true]
      exact (ih fun e he => hkey e (List.mem_cons_of_mem _ he)).cons_cons e
  exact hputIn h

end Ledger

/-- Whether a section has a text under a key. -/
def Context.has (c : Context) (part : Section) (key : String) : Bool := (c.ledger part).contains key

namespace Action

/-- An action registers a text under a key. -/
def Registers : Action → Section → String → Prop
  | .register part key _, part', key' => part' = part ∧ key' = key
  | .replaceSetup key _, part', key' => part' = .setups ∧ key' = key
  | _, _, _ => False

theorem ledger_withLedger (c : Context) (part part' : Section) (l : Ledger String) :
    (c.withLedger part l).ledger part' = if part' = part then l else c.ledger part' := by
  cases part <;> cases part' <;> rfl

/-- A key is there after an action if it was there before or the action registers it. -/
theorem has_perform (c : Context) (action : Action) (part : Section) (key : String) :
    (action.perform c).2.has part key = true ↔ c.has part key = true ∨ action.Registers part key := by
  cases action with
  | register part' key' text =>
    simp only [perform, Context.has, ledger_withLedger, Registers]
    split
    · next h =>
      subst h
      simp [Ledger.contains_add]
    · next h => simp [h]
  | replaceSetup key' text =>
    cases part <;> simp [perform, Context.has, Context.ledger, Registers, Ledger.contains_put]
  | inferType name text =>
    cases h : c.types.get? name <;> cases part <;>
      simp [perform, h, Context.has, Context.ledger, Registers]
  | setType name type => cases part <;> simp [perform, Context.has, Context.ledger, Registers]
  | setLength name length => cases part <;> simp [perform, Context.has, Context.ledger, Registers]
  | diagnose d => cases part <;> simp [perform, Context.has, Context.ledger, Registers]

end Action

/-- The text that a section has under a key. -/
def Context.text? (c : Context) (part : Section) (key : String) : Option String :=
  (c.ledger part).get? key

theorem Context.mem_entries_of_text? {c : Context} {part : Section} {key text : String}
    (h : c.text? part key = some text) : (key, text) ∈ (c.ledger part).entries := by
  obtain ⟨front, back, hentries, -⟩ := List.lookup_eq_some_iff.1 h
  rw [hentries]
  exact List.mem_append_right _ List.mem_cons_self

namespace Action

/-- A text that is registered stays, unless it is a setup. -/
theorem text?_perform {c : Context} {part : Section} {key text : String} (hpart : part ≠ .setups)
    (h : c.text? part key = some text) (action : Action) :
    (action.perform c).2.text? part key = some text := by
  cases action with
  | register part' key' text' =>
    simp only [perform, Context.text?, ledger_withLedger]
    split
    · next heq =>
      subst heq
      rw [Ledger.get?_add, show (c.ledger part).get? key = some text from h]
      rfl
    · exact h
  | replaceSetup key' text' =>
    cases part with
    | setups => exact absurd rfl hpart
    | _ => exact h
  | inferType name text' => cases hget : c.types.get? name <;> cases part <;> simpa [perform, hget]
  | setType name type => cases part <;> exact h
  | setLength name length => cases part <;> exact h
  | diagnose d => cases part <;> exact h

/-- What stands under a key is left alone by an action that does not register it. -/
theorem text?_perform_of_not_registers {part : Section} {key : String} {action : Action}
    (hpart : part ≠ .setups) (h : ¬action.Registers part key) (c : Context) :
    (action.perform c).2.text? part key = c.text? part key := by
  cases htext : c.text? part key with
  | some text => exact text?_perform hpart htext action
  | none =>
    have hbefore : ¬c.has part key = true := by
      rw [Context.has, Ledger.contains, show (c.ledger part).get? key = none from htext]
      exact Bool.false_ne_true
    have hafter : (action.perform c).2.has part key = false :=
      Bool.eq_false_iff.2 fun hhas => ((has_perform c action part key).1 hhas).elim hbefore h
    exact Option.not_isSome_iff_eq_none.1 (Bool.eq_false_iff.1 hafter)

/-- The first text under a key counts. -/
theorem text?_register (c : Context) (part : Section) (key text k : String) :
    (perform c (.register part key text)).2.text? part k =
      if (c.text? part k).isNone && k == key then some text else c.text? part k := by
  have hledger := (ledger_withLedger c part part ((c.ledger part).add key text)).trans (if_pos rfl)
  exact (congrArg (Ledger.get? · k) hledger).trans (Ledger.get?_add ..)

/-- A text whose key is new is registered. -/
theorem text?_of_register {c : Context} {part : Section} {key text : String}
    (h : (perform c (.register part key text)).1 = true) :
    (perform c (.register part key text)).2.text? part key = some text := by
  have hnone : c.text? part key = none := by
    simpa [perform, Ledger.contains, Context.text?] using h
  rw [text?_register, hnone, Option.isNone_none, beq_self_eq_true, Bool.and_self, if_pos rfl]

end Action

end BlockCompiler
