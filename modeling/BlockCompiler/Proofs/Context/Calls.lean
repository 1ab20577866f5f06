import BlockCompiler.Proofs.Context
import Mathlib.Data.List.DropRight
import Mathlib.Data.List.Induction

set_option autoImplicit false

/-! # Calls on a context

A context is told by the calls that were made on it since it was fresh: which keys a section lists
and under which texts, the types and lengths of variables, and the diagnostics that nobody took yet.
Each of these is read off the list of calls by itself, whatever calls on other pieces of the state
stand in between. -/

namespace BlockCompiler

/-! ## Calls -/

/-- A call on a context. -/
inductive Call where
  | act (action : Action)
  /-- Hands out the diagnostics and forgets them. -/
  | take
  deriving DecidableEq

namespace Call

/-- What a call answers. -/
abbrev Answer : Call → Type
  | .act action => action.Answer
  | .take => List Diagnostic

/-- Carries a call out. -/
def perform (c : Context) : (call : Call) → call.Answer × Context
  | .act action => action.perform c
  | .take => c.takeDiagnostics

/-- The context that a call leaves. -/
def leave (c : Context) (call : Call) : Context := (call.perform c).2

/-! ## What one call says -/

/-- The key under which a call registers a text in a section. -/
def key? (part : Section) : Call → Option String
  | .act (.register part' key _) => if part' = part then some key else none
  | .act (.replaceSetup key _) => if part = .setups then some key else none
  | _ => none

/-- The text that a call adds to a section under a key, if none is there. -/
def added? (part : Section) (key : String) : Call → Option String
  | .act (.register part' key' text) => if part' = part ∧ key' = key then some text else none
  | _ => none

/-- The text that a call puts under a key, whatever is there. -/
def replaced? (part : Section) (key : String) : Call → Option String
  | .act (.replaceSetup key' text) => if part = .setups ∧ key' = key then some text else none
  | _ => none

/-- The variable that a call types. -/
def name? : Call → Option String
  | .act (.inferType name _) => some name
  | .act (.setType name _) => some name
  | _ => none

/-- The type that a call guesses for a variable, if it has none. -/
def inferred? (name : String) : Call → Option CType
  | .act (.inferType name' text) => if name' = name then some (CType.sniff text) else none
  | _ => none

/-- The type that a call gives a variable, whatever it has. -/
def typed? (name : String) : Call → Option CType
  | .act (.setType name' type) => if name' = name then some type else none
  | _ => none

/-- The length that a call asks for. -/
def length? (name : String) : Call → Option Nat
  | .act (.setLength name' length) => if name' = name then some length else none
  | _ => none

/-- The diagnostic that a call records. -/
def diagnostic? : Call → Option Diagnostic
  | .act action => action.diagnostic?
  | .take => none

end Call

/-! ## What a list of calls says -/

namespace Calls

/-- The keys that a section was given, in the order in which each came first. -/
def keys (part : Section) (calls : List Call) : List String :=
  (calls.filterMap (Call.key? part)).eraseDups

/-- The text under a key of a section: the last one that was to replace others, or else the first
one that was added. -/
def text? (part : Section) (key : String) (calls : List Call) : Option String :=
  (calls.filterMap (Call.replaced? part key)).getLast?.or
    (calls.filterMap (Call.added? part key)).head?

/-- The variables that were typed, in the order in which each came first. -/
def names (calls : List Call) : List String := (calls.filterMap Call.name?).eraseDups

/-- The type of a variable: the last one that it was given, or else the first one that was guessed. -/
def type? (name : String) (calls : List Call) : Option CType :=
  (calls.filterMap (Call.typed? name)).getLast?.or (calls.filterMap (Call.inferred? name)).head?

/-- The greatest length that was asked for. -/
def length? (name : String) (calls : List Call) : Option Nat :=
  (calls.filterMap (Call.length? name)).max?

/-- What was recorded since the diagnostics were taken last. -/
def diagnostics (calls : List Call) : List Diagnostic :=
  (calls.rtakeWhile (· ≠ .take)).filterMap Call.diagnostic?

end Calls

/-- The context after some calls on a fresh one. -/
def Context.after (calls : List Call) : Context := calls.foldl Call.leave .empty

/-- A context holds what a list of calls says. -/
structure Context.IsToldBy (c : Context) (calls : List Call) : Prop where
  keys : ∀ part, (c.ledger part).keys = Calls.keys part calls
  keys_nodup : ∀ part, (c.ledger part).keys.Nodup
  text? : ∀ part key, c.text? part key = Calls.text? part key calls
  names : c.types.keys = Calls.names calls
  type? : ∀ name, c.types.get? name = Calls.type? name calls
  length? : ∀ name, c.lengths.get? name = Calls.length? name calls
  diagnostics : c.diagnostics = Calls.diagnostics calls

/-! ## Pieces of the state -/

/-- A piece of a context's state. -/
inductive Context.Piece where
  | texts (part : Section)
  | types
  | lengths
  | diagnostics

/-- Two contexts have a piece of their state in common. -/
def Context.AgreesOn (c c' : Context) : Context.Piece → Prop
  | .texts part => c.ledger part = c'.ledger part
  | .types => c.types = c'.types
  | .lengths => c.lengths = c'.lengths
  | .diagnostics => c.diagnostics = c'.diagnostics

/-- The piece of the state that a call is about. -/
def Call.piece : Call → Context.Piece
  | .act (.register part _ _) => .texts part
  | .act (.replaceSetup _ _) => .texts .setups
  | .act (.inferType _ _) => .types
  | .act (.setType _ _) => .types
  | .act (.setLength _ _) => .lengths
  | .act (.diagnose _) => .diagnostics
  | .take => .diagnostics

/-! ## What one call changes -/

/-- A list of names with one noted at its end, unless it is there. -/
def noted (names : List String) : Option String → List String
  | none => names
  | some name => if name ∈ names then names else names ++ [name]

namespace Call

variable (c : Context) (call : Call)

/-- A call leaves a section alone that it registers nothing in. -/
theorem ledger_leave {call : Call} {part : Section} (h : call.key? part = none) :
    (call.leave c).ledger part = c.ledger part := by
  cases call with
  | take => cases part <;> rfl
  | act action =>
    cases action with
    | register part' key text =>
      refine (Action.ledger_withLedger c part' part _).trans (if_neg fun heq => ?_)
      rw [key?, if_pos heq.symm] at h
      cases h
    | replaceSetup key text =>
      cases part with
      | setups => cases h
      | _ => rfl
    | inferType name text =>
      cases hget : c.types.get? name <;> cases part <;>
        simp [leave, perform, Action.perform, hget, Context.ledger]
    | _ => cases part <;> rfl

/-- A key that is new to a section comes last. -/
theorem keys_leave (part : Section) :
    ((call.leave c).ledger part).keys = noted (c.ledger part).keys (call.key? part) := by
  cases hkey : call.key? part with
  | none => exact congrArg Ledger.keys (ledger_leave c hkey)
  | some key =>
    match call with
    | .act (.register part' key' text) =>
      rw [key?] at hkey
      split at hkey
      · next hpart =>
        obtain rfl := Option.some_inj.1 hkey
        subst hpart
        refine (congrArg Ledger.keys (Action.ledger_withLedger c part' part' _)).trans ?_
        rw [if_pos rfl]
        exact Ledger.keys_add ..
      · cases hkey
    | .act (.replaceSetup key' text) =>
      rw [key?] at hkey
      split at hkey
      · next hpart =>
        obtain rfl := Option.some_inj.1 hkey
        subst hpart
        exact Ledger.keys_put ..
      · cases hkey

/-- A text that replaces others counts, and else the one that was there before one that is added. -/
theorem text?_leave (part : Section) (key : String) : (call.leave c).text? part key =
    (call.replaced? part key).or ((c.text? part key).or (call.added? part key)) := by
  have hsame (call : Call) (h : call.key? part = none) :
      (call.leave c).text? part key = c.text? part key :=
    congrArg (Ledger.get? · key) (ledger_leave c h)
  match call with
  | .act (.register part' key' text) =>
    by_cases hpart : part' = part
    · subst hpart
      refine (Action.text?_register c part' key' text key).trans ?_
      cases c.text? part' key with
      | some before => simp [replaced?]
      | none =>
        by_cases hkey : key = key'
        · simp [replaced?, added?, hkey]
        · simp [replaced?, added?, hkey, Ne.symm hkey]
    · refine (hsame (.act (.register part' key' text)) (if_neg hpart)).trans ?_
      simp [replaced?, added?, hpart]
  | .act (.replaceSetup key' text) =>
    by_cases hpart : part = .setups
    · subst hpart
      refine (Ledger.get?_put c.setups key' key text).trans ?_
      by_cases hkey : key = key'
      · simp [replaced?, hkey]
      · simp [replaced?, added?, hkey, Ne.symm hkey, Context.text?, Context.ledger]
    · refine (hsame (.act (.replaceSetup key' text)) (if_neg hpart)).trans ?_
      simp [replaced?, added?, hpart]
  | .act (.inferType _ _) | .act (.setType _ _) | .act (.setLength _ _) | .act (.diagnose _)
  | .take => exact (hsame _ rfl).trans Option.or_none.symm

/-- The types of variables change only by calls that type one. -/
theorem types_leave {call : Call} (h : call.name? = none) : (call.leave c).types = c.types := by
  match call with
  | .act (.register part _ _) => cases part <;> rfl
  | .act (.replaceSetup _ _) | .act (.setLength _ _) | .act (.diagnose _) | .take => rfl

theorem names_leave : (call.leave c).types.keys = noted c.types.keys call.name? := by
  cases hname : call.name? with
  | none => exact congrArg Ledger.keys (types_leave c hname)
  | some name =>
    match call with
    | .act (.inferType name' text) =>
      obtain rfl := Option.some_inj.1 hname
      have hmem := Ledger.contains_iff_mem_keys c.types name'
      rw [leave, perform, Action.perform]
      cases hget : c.types.get? name' with
      | some type => exact (if_pos (hmem.1 (by rw [Ledger.contains, hget]; rfl))).symm
      | none => exact Ledger.keys_put ..
    | .act (.setType name' type) =>
      obtain rfl := Option.some_inj.1 hname
      exact Ledger.keys_put ..

/-- A type that is given counts, and else the one that was there before one that is guessed. -/
theorem type?_leave (name : String) : (call.leave c).types.get? name =
    (call.typed? name).or ((c.types.get? name).or (call.inferred? name)) := by
  match call with
  | .act (.inferType name' text) =>
    rw [leave, perform, Action.perform]
    cases hget : c.types.get? name' with
    | some type =>
      by_cases hname : name = name'
      · simp [typed?, hname, hget]
      · simp [typed?, inferred?, Ne.symm hname]
    | none =>
      refine (Ledger.get?_put c.types name' name _).trans ?_
      by_cases hname : name = name'
      · simp [typed?, inferred?, hname, hget]
      · simp [typed?, inferred?, hname, Ne.symm hname]
  | .act (.setType name' type) =>
    refine (Ledger.get?_put c.types name' name type).trans ?_
    by_cases hname : name = name'
    · simp [typed?, hname]
    · simp [typed?, inferred?, hname, Ne.symm hname]
  | .act (.register _ _ _) | .act (.replaceSetup _ _) | .act (.setLength _ _)
  | .act (.diagnose _) | .take =>
    exact (congrArg (Ledger.get? · name) (types_leave c rfl)).trans Option.or_none.symm

theorem length?_leave (name : String) : (call.leave c).lengths.get? name =
    match call.length? name with
    | none => c.lengths.get? name
    | some length => some (max ((c.lengths.get? name).getD 0) length) := by
  match call with
  | .act (.setLength name' length) =>
    refine (Ledger.get?_put c.lengths name' name _).trans ?_
    by_cases hname : name = name'
    · simp [length?, hname]
    · simp [length?, hname, Ne.symm hname]
  | .act (.register part _ _) => cases part <;> rfl
  | .act (.inferType name' _) =>
    rw [leave, perform, Action.perform]
    cases c.types.get? name' <;> rfl
  | .act (.replaceSetup _ _) | .act (.setType _ _) | .act (.diagnose _) | .take => rfl

theorem diagnostics_leave : (call.leave c).diagnostics =
    if call = .take then [] else c.diagnostics ++ call.diagnostic?.toList := by
  cases call with
  | take => rfl
  | act action => exact action.perform_diagnostics c

/-- A call leaves the pieces of the state alone that it is not about. -/
theorem leave_agreesOn {call : Call} {piece : Context.Piece} (h : call.piece ≠ piece) :
    (call.leave c).AgreesOn c piece := by
  cases piece with
  | texts part =>
    refine ledger_leave c ?_
    cases call with
    | take => rfl
    | act action =>
      cases action with
      | register part' key text => exact if_neg fun heq => h (congrArg Context.Piece.texts heq)
      | replaceSetup key text => exact if_neg fun heq => h (congrArg Context.Piece.texts heq.symm)
      | _ => rfl
  | types =>
    refine types_leave c ?_
    cases call with
    | take => rfl
    | act action =>
      cases action with
      | inferType name text => exact absurd rfl h
      | setType name type => exact absurd rfl h
      | _ => rfl
  | lengths =>
    cases call with
    | take => rfl
    | act action =>
      cases action with
      | setLength name length => exact absurd rfl h
      | register part key text => cases part <;> rfl
      | inferType name text =>
        rw [leave, perform, Action.perform]
        cases c.types.get? name <;> rfl
      | _ => rfl
  | diagnostics =>
    refine (diagnostics_leave c call).trans ?_
    cases call with
    | take => exact absurd rfl h
    | act action =>
      cases action with
      | diagnose diagnostic => exact absurd rfl h
      | _ => exact List.append_nil _

end Call

/-! ## What many calls change -/

theorem noted_nodup {names : List String} (h : names.Nodup) (name? : Option String) :
    (noted names name?).Nodup := by
  cases name? with
  | none => exact h
  | some name =>
    rw [noted]
    split
    · exact h
    · next hnew => exact Ledger.nodup_concat h hnew

namespace Calls

variable {α : Type} (calls : List Call) (call : Call)

theorem eraseDups_noted (names : List String) (name? : Option String) :
    (names ++ name?.toList).eraseDups = noted names.eraseDups name? := by
  rw [List.eraseDups_append]
  cases name? with
  | none => exact List.append_nil _
  | some name =>
    by_cases hmem : name ∈ names
    · simp [noted, List.removeAll, hmem]
    · simp [noted, List.removeAll, hmem, List.eraseDups_cons]

theorem filterMap_concat (f : Call → Option α) :
    (calls ++ [call]).filterMap f = calls.filterMap f ++ (f call).toList := by
  rw [List.filterMap_append]
  cases h : f call <;> simp [h]

theorem getLast?_concat (f : Call → Option α) :
    ((calls ++ [call]).filterMap f).getLast? = (f call).or (calls.filterMap f).getLast? := by
  rw [filterMap_concat]
  cases f call <;> simp

theorem head?_concat (f : Call → Option α) :
    ((calls ++ [call]).filterMap f).head? = (calls.filterMap f).head?.or (f call) := by
  rw [filterMap_concat, List.head?_append]
  cases f call <;> rfl

theorem max?_concat (f : Call → Option Nat) : ((calls ++ [call]).filterMap f).max? =
    match f call with
    | none => (calls.filterMap f).max?
    | some n => some (max ((calls.filterMap f).max?.getD 0) n) := by
  rw [filterMap_concat]
  cases f call with
  | none => simp
  | some n =>
    cases calls.filterMap f with
    | nil => simp
    | cons m ms => simp [List.max?]

theorem diagnostics_concat : diagnostics (calls ++ [call]) =
    if call = .take then [] else diagnostics calls ++ call.diagnostic?.toList := by
  rw [diagnostics, List.rtakeWhile_concat]
  cases call with
  | take => rfl
  | act action => cases h : action.diagnostic? <;> simp [diagnostics, Call.diagnostic?, h]

end Calls

namespace Context

theorem empty_isToldBy : empty.IsToldBy [] where
  keys part := by cases part <;> rfl
  keys_nodup part := by cases part <;> exact List.nodup_nil
  text? part key := by cases part <;> rfl
  names := rfl
  type? _ := rfl
  length? _ := rfl
  diagnostics := rfl

/-- A call says what is new in the context that it leaves. -/
theorem IsToldBy.leave {c : Context} {calls : List Call} (h : c.IsToldBy calls) (call : Call) :
    (call.leave c).IsToldBy (calls ++ [call]) where
  keys part := by
    rw [Call.keys_leave, h.keys, Calls.keys, Calls.keys, Calls.filterMap_concat,
      Calls.eraseDups_noted]
  keys_nodup part := by
    rw [Call.keys_leave]
    exact noted_nodup (h.keys_nodup part) _
  text? part key := by
    rw [Call.text?_leave, h.text?, Calls.text?, Calls.text?, Calls.getLast?_concat,
      Calls.head?_concat, Option.or_assoc, Option.or_assoc]
  names := by
    rw [Call.names_leave, h.names, Calls.names, Calls.names, Calls.filterMap_concat,
      Calls.eraseDups_noted]
  type? name := by
    rw [Call.type?_leave, h.type?, Calls.type?, Calls.type?, Calls.getLast?_concat,
      Calls.head?_concat, Option.or_assoc, Option.or_assoc]
  length? name := by
    rw [Call.length?_leave, h.length?, Calls.length?, Calls.length?, Calls.max?_concat]
  diagnostics := by
    rw [Call.diagnostics_leave, h.diagnostics, Calls.diagnostics_concat]

theorem after_concat (calls : List Call) (call : Call) :
    after (calls ++ [call]) = call.leave (after calls) :=
  List.foldl_concat ..

theorem after_isToldBy (calls : List Call) : (after calls).IsToldBy calls := by
  induction calls using List.reverseRecOn with
  | nil => exact empty_isToldBy
  | append_singleton calls call ih =>
    rw [after_concat]
    exact ih.leave call

/-- The type that a guess answers is the one that the variable has from then on. -/
theorem type?_of_inferType (c : Context) (name text : String) :
    (Call.leave c (.act (.inferType name text))).types.get? name =
      some (Action.perform c (.inferType name text)).1 := by
  rw [Call.type?_leave, Action.perform]
  cases c.types.get? name with
  | some type => rfl
  | none => exact if_pos rfl

/-- What a context holds and answers after any calls on a fresh one is what the calls say: a section
lists each key once, in the order in which it came first, under the first text that was added, or the
last one that was to replace others; registering a text answers whether its key is new in its own
section; a variable has the last type that it was given, or else the first one that was guessed, and
a guess answers this type; the greatest length counts; the diagnostics are those since they were
taken last; and no call touches what another piece of the state holds. -/
theorem after_tells (calls : List Call) :
    (after calls).IsToldBy calls ∧
      (∀ part key text, (Action.perform (after calls) (.register part key text)).1 = true ↔
        key ∉ Calls.keys part calls) ∧
      (∀ name text, some (Action.perform (after calls) (.inferType name text)).1 =
        Calls.type? name (calls ++ [.act (.inferType name text)])) ∧
      (after calls).takeDiagnostics.1 = Calls.diagnostics calls ∧
      ∀ call piece, call.piece ≠ piece →
        (after (calls ++ [call])).AgreesOn (after calls) piece := by
  have htold := after_isToldBy calls
  refine ⟨htold, fun part key text => ?_, fun name text => ?_, htold.diagnostics, ?_⟩
  · rw [← htold.keys, ← Ledger.contains_iff_mem_keys]
    simp [Action.perform]
  · rw [← (after_isToldBy _).type?, after_concat, type?_of_inferType]
  · intro call piece hpiece
    rw [after_concat]
    exact Call.leave_agreesOn _ hpiece

/-- A setup that is replaced between two additions, a variable that is given a type between two
guesses, and a diagnostic that is taken before another one is recorded. -/
def mixed : List Call :=
  [.act (.register .setups "card" "sd_mount(22, 23, 24, 25);"), .act (.inferType "x" "2.5"),
    .act (.diagnose ⟨.warning, "a", "sd_init", "taken"⟩), .act (.setLength "x" 10),
    .act (.replaceSetup "card" "sd_mount(0, 1, 2, 3);"), .act (.setType "x" .char), .take,
    .act (.register .setups "card" "sd_mount(4, 5, 6, 7);"), .act (.inferType "x" "7"),
    .act (.diagnose ⟨.error, "b", "sd_read", "left"⟩), .act (.setLength "x" 4)]

theorem after_tells_mixed :
    (after mixed).setups.entries = [("card", "sd_mount(0, 1, 2, 3);")] ∧
      (after mixed).types.get? "x" = some .char ∧ (after mixed).lengths.get? "x" = some 10 ∧
      (after mixed).takeDiagnostics.1 = Calls.diagnostics mixed ∧
      Calls.diagnostics mixed = [⟨.error, "b", "sd_read", "left"⟩] ∧
      Call.piece (.act (.replaceSetup "card" "")) ≠ .types ∧
      (after (mixed ++ [.act (.replaceSetup "card" "")])).AgreesOn (after mixed) .types := by
  have htells := after_tells mixed
  exact ⟨by decide, by decide, by decide, htells.2.2.2.1, by decide, nofun,
    htells.2.2.2.2 _ _ nofun⟩

end Context

end BlockCompiler
