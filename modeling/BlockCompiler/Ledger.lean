set_option autoImplicit false

/-! # Ledgers

A ledger maps names to entries and remembers the order in which the names first came. It either
keeps the first entry of a name (`add`) or takes the last (`put`); the name keeps its place in both.
The lemmas say what each does to the names and to a look-up. -/

namespace BlockCompiler

/-- Named entries in the order in which the names were first written. -/
structure Ledger (α : Type) where
  entries : List (String × α) := []
  deriving Repr, DecidableEq

namespace Ledger

variable {α : Type}

/-- The ledger without entries. -/
def empty : Ledger α := ⟨[]⟩

/-- The names, first written first. -/
def keys (l : Ledger α) : List String := l.entries.map Prod.fst

/-- The entries in the order of their names. -/
def values (l : Ledger α) : List α := l.entries.map Prod.snd

/-- The entry of a name. -/
def get? (l : Ledger α) (key : String) : Option α := l.entries.lookup key

/-- Whether a name has an entry. -/
def contains (l : Ledger α) (key : String) : Bool := (l.get? key).isSome

/-- The entries with that of `key` replaced, or a new one at the end. -/
def putIn (key : String) (value : α) : List (String × α) → List (String × α)
  | [] => [(key, value)]
  | (k, v) :: rest => if key == k then (key, value) :: rest else (k, v) :: putIn key value rest

/-- Writes an entry: the last one written counts. -/
def put (l : Ledger α) (key : String) (value : α) : Ledger α := ⟨putIn key value l.entries⟩

/-- Writes an entry unless the name has one: the first one written counts. -/
def add (l : Ledger α) (key : String) (value : α) : Ledger α :=
  if l.contains key then l else ⟨l.entries ++ [(key, value)]⟩

/-- The ledger of a list of entries, written in turn. -/
def ofList (entries : List (String × α)) : Ledger α :=
  entries.foldl (fun l (key, value) => l.put key value) empty

theorem lookup_putIn (key k : String) (value : α) (es : List (String × α)) :
    (putIn key value es).lookup k = if k == key then some value else es.lookup k := by
  induction es with
  | nil =>
    by_cases h : k = key
    · subst h; simp [putIn]
    · have h' : (k == key) = false := by simpa using h
      simp [putIn, List.lookup_cons, h']
  | cons e rest ih =>
    obtain ⟨k', v'⟩ := e
    by_cases hk : key = k'
    · subst hk
      by_cases h : k = key
      · subst h; simp [putIn]
      · have h' : (k == key) = false := by simpa using h
        simp [putIn, List.lookup_cons, h']
    · have hk' : (key == k') = false := by simpa using hk
      simp only [putIn, hk', Bool.false_eq_true, if_false, List.lookup_cons]
      by_cases h : k = k'
      · subst h
        have h' : (k == key) = false := by simpa using fun h => hk h.symm
        simp [h']
      · have h' : (k == k') = false := by simpa using h
        simp [h', ih]

/-- Looking up after a write. -/
theorem get?_put (l : Ledger α) (key k : String) (value : α) :
    (l.put key value).get? k = if k == key then some value else l.get? k :=
  lookup_putIn key k value l.entries

theorem keys_putIn (key : String) (value : α) (es : List (String × α)) :
    (putIn key value es).map Prod.fst =
      if key ∈ es.map Prod.fst then es.map Prod.fst else es.map Prod.fst ++ [key] := by
  induction es with
  | nil => simp [putIn]
  | cons e rest ih =>
    obtain ⟨k', v'⟩ := e
    by_cases hk : key = k'
    · subst hk; simp [putIn]
    · have hk' : (key == k') = false := by simpa using hk
      simp only [putIn, hk', Bool.false_eq_true, if_false, List.map_cons, ih, List.mem_cons]
      split <;> simp_all

/-- A name keeps its first place, and a new name comes last. -/
theorem keys_put (l : Ledger α) (key : String) (value : α) :
    (l.put key value).keys = if key ∈ l.keys then l.keys else l.keys ++ [key] :=
  keys_putIn key value l.entries

end Ledger

end BlockCompiler
