import BlockCompiler.Proofs.Emission.Record
import BlockCompiler.Proofs.Emit.Draw
import BlockCompiler.Proofs.Identifier

set_option autoImplicit false

/-! # Temporaries of a program

Every temporary of a program has a number of its own, behind a stem of letters, so no two are the same.
Names that the user gives have no numbers to keep them apart: the identifier of a name is a temporary just
if the name spells it. -/

namespace BlockCompiler

namespace Emit

/-! ## Stems and numbers -/

/-- A letter. -/
def isLetter (c : Char) : Bool := c.isAlphanum && !c.isDigit

/-- A stem of temporaries: one or more letters. -/
def IsStem (stem : String) : Prop := stem ≠ "" ∧ stem.toList.all isLetter = true

theorem IsStem.letter {stem : String} (h : IsStem stem) {c : Char} (hc : c ∈ stem.toList) :
    c.isAlphanum = true ∧ c.isDigit = false := by
  have hletter := List.all_eq_true.1 h.2 c hc
  rwa [isLetter, Bool.and_eq_true, Bool.not_eq_true'] at hletter

/-- The stems of all kinds. -/
def allStems : List String := ["n", "from", "to", "by", "tmpArr"]

theorem isStem_of_mem_allStems {stem : String} (h : stem ∈ allStems) : IsStem stem := by
  have hall : ∀ stem ∈ allStems, stem ≠ "" ∧ stem.toList.all isLetter = true := by decide
  exact hall stem h

theorem mem_allStems (b : Block) : ∀ stem ∈ blockStems b, stem ∈ allStems := by
  unfold blockStems
  cases Kind.ofName? b.type with
  | none => exact nofun
  | some kind => cases kind <;> decide

/-- The number in a name. -/
def numberOf (name : String) : Nat := Nat.ofDigitChars 10 (name.toList.filter Char.isDigit) 0

theorem numberOf_temporary {stem : String} (h : IsStem stem) (n : Nat) :
    numberOf (temporary stem n) = n := by
  have hstem : stem.toList.filter Char.isDigit = [] := by
    refine List.filter_eq_nil_iff.2 fun c hc => ?_
    rw [(h.letter hc).2]
    exact Bool.false_ne_true
  have hdigits : (Nat.toDigits 10 n).filter Char.isDigit = Nat.toDigits 10 n :=
    List.filter_eq_self.2 fun c hc => Text.isDigit_of_mem_toDigits hc
  have hfilter : (temporary stem n).toList.filter Char.isDigit = Nat.toDigits 10 n := by
    rw [toList_temporary, List.filter_cons_of_neg (by decide), List.filter_append, hstem, hdigits,
      List.nil_append]
  rw [numberOf, hfilter, Nat.ofDigitChars_ten_toDigits]

/-- The numbers are read back from the temporaries. -/
theorem map_numberOf_temporaries {stems : List String} {ns : List Nat}
    (hstems : ∀ stem ∈ stems, IsStem stem) (hlength : ns.length ≤ stems.length) :
    (temporaries stems ns).map numberOf = ns := by
  induction stems generalizing ns with
  | nil =>
    obtain rfl := List.length_eq_zero_iff.1 (Nat.le_zero.1 hlength)
    rfl
  | cons stem stems ih =>
    cases ns with
    | nil => rfl
    | cons n ns =>
      have hrest := ih (fun stem' hstem' => hstems stem' (List.mem_cons_of_mem stem hstem'))
        (Nat.le_of_succ_le_succ hlength)
      rw [temporaries, List.zipWith_cons_cons, List.map_cons,
        numberOf_temporary (hstems stem List.mem_cons_self)]
      exact congrArg (n :: ·) hrest

/-- The names whose identifier is a temporary are those that spell it. -/
theorem ofName_eq_temporary_iff {stem : String} (h : IsStem stem) (n : Nat) (name : String) :
    Identifier.ofName name = temporary stem n ↔ Identifier.Spells name (temporary stem n) := by
  cases hstem : stem.toList with
  | nil => exact absurd (String.toList_inj.1 hstem) h.1
  | cons a as =>
    have hword : (temporary stem n).toList = '_' :: a :: (as ++ Nat.toDigits 10 n) := by
      rw [toList_temporary, hstem, List.cons_append]
    have ha : a.isDigit = false := (h.letter (hstem ▸ List.mem_cons_self)).2
    refine Identifier.ofName_eq_iff_spells hword ha (fun d hd => ?_) name
    rw [← List.cons_append, ← hstem] at hd
    rcases List.mem_append.1 hd with hd | hd
    · exact (h.letter hd).1
    · rw [Char.isAlphanum, Text.isDigit_of_mem_toDigits hd, Bool.or_true]

end Emit

/-! ## Programs -/

/-- The temporaries of an entry. -/
def Entry.temporaries (e : Entry) : List String := Emit.temporaries (Emit.blockStems e.block) e.drawn

/-- The names that a block gives to variables, arrays and functions. -/
def Block.givenNames (b : Block) : List String :=
  (b.fields.get? "VAR").toList ++ (b.fields.get? "NAME").toList ++ (b.mutation.get? "name").toList

/-- The names that are given to variables, arrays and functions. -/
def Workspace.givenNames (w : Workspace) : List String := w.blocks.toList.flatMap Block.givenNames

namespace Project

variable {p : Project}

/-- The temporaries of a program, those of a block in front of those of the blocks inside it. -/
def temporaries (p : Project) : List String := p.entries.flatMap Entry.temporaries

theorem stackCode_drawsNone (p : Project) (id : BlockId) : (p.stackCode id).DrawsNone := by
  unfold stackCode
  split
  · exact .pure ""
  · split
    · split
      · exact Emit.chain_drawsNone p id
      · refine (Recipe.DrawsNone.code id).bind fun fragment => ?_
        cases fragment with
        | statement text => exact .pure text
        | expression found => exact .pure ""
    · exact .pure ""
    · exact Emit.chain_drawsNone p id

theorem mainBody_drawsNone (p : Project) : p.mainBody.DrawsNone := by
  refine (Recipe.DrawsNone.ensure _ _ _).bind fun _ => .concat fun r hr => ?_
  obtain ⟨id, -, rfl⟩ := List.mem_map.1 hr
  exact stackCode_drawsNone p id

/-- The numbers of the entries are those that were given out. -/
theorem entries_givenOut (p : Project) :
    Emission.GivenOut (p.entries.flatMap Entry.drawn) .empty p.final := by
  obtain ⟨es, hpath, htold⟩ := p.entries_told
  have hdrawn := htold.drawn
  rwa [p.mainBody_drawsNone es _ hpath, List.nil_append] at hdrawn

theorem declaresIn_of_mem_entries {e : Entry} (he : e ∈ p.entries) :
    Emit.DeclaresIn (Emit.blockStems e.block) e.drawn e.fragment := by
  obtain ⟨es, -, htold⟩ := p.entries_told
  exact Emit.recipe_draws p e.block e.id e.events e.fragment (htold.took e he).2

theorem made_of_mem_entries {e : Entry} (he : e ∈ p.entries) : (e.id, e.fragment) ∈ p.final.made := by
  obtain ⟨es, -, htold⟩ := p.entries_told
  refine htold.made.mem_iff.2 (List.mem_append_left _ ?_)
  exact List.mem_map_of_mem he

/-- The numbers of an entry are read back from its temporaries. -/
theorem map_numberOf_of_mem_entries {e : Entry} (he : e ∈ p.entries) :
    e.temporaries.map Emit.numberOf = e.drawn := by
  refine Emit.map_numberOf_temporaries (fun stem hstem => ?_) (declaresIn_of_mem_entries he).length_le
  exact Emit.isStem_of_mem_allStems (Emit.mem_allStems e.block stem hstem)

theorem map_numberOf_temporaries (p : Project) :
    p.temporaries.map Emit.numberOf = p.entries.flatMap Entry.drawn := by
  rw [temporaries, List.map_flatMap]
  exact List.flatMap_congr fun e he => map_numberOf_of_mem_entries he

theorem temporaries_nodup (p : Project) : p.temporaries.Nodup := by
  refine List.Nodup.of_map Emit.numberOf ?_
  rw [map_numberOf_temporaries]
  exact p.entries_givenOut.nodup

/-- There are as many temporaries as numbers were given out. -/
theorem length_temporaries (p : Project) : p.temporaries.length = p.final.names := by
  have hnames := p.entries_givenOut.names
  rw [← map_numberOf_temporaries, List.length_map] at hnames
  exact (hnames.trans (Nat.zero_add _)).symm

/-- A temporary is declared in the code of a block. -/
theorem exists_declares_of_mem_temporaries {name : String} (h : name ∈ p.temporaries) :
    ∃ id text, (id, Fragment.statement text) ∈ p.final.made ∧ Emit.DeclaresInt text name := by
  obtain ⟨e, he, hname⟩ := List.mem_flatMap.1 h
  have hdeclares := declaresIn_of_mem_entries he
  have hmade := made_of_mem_entries he
  cases hfragment : e.fragment with
  | statement text =>
    rw [hfragment] at hdeclares hmade
    exact ⟨e.id, text, hmade, hdeclares.declared name hname⟩
  | expression found =>
    rw [hfragment] at hdeclares
    rw [Entry.temporaries, show e.drawn = [] from hdeclares, Emit.temporaries_nil] at hname
    cases hname

/-- A temporary has a stem, and a number that was given out. -/
theorem exists_stem_of_mem_temporaries {name : String} (h : name ∈ p.temporaries) :
    ∃ stem ∈ Emit.allStems, ∃ n < p.final.names, name = Emit.temporary stem n := by
  obtain ⟨e, he, hname⟩ := List.mem_flatMap.1 h
  rw [Entry.temporaries, Emit.temporaries, ← List.map_uncurry_zip_eq_zipWith] at hname
  obtain ⟨⟨stem, n⟩, hpair, rfl⟩ := List.mem_map.1 hname
  obtain ⟨hstem, hn⟩ := List.of_mem_zip hpair
  refine ⟨stem, Emit.mem_allStems e.block stem hstem, n, ?_, rfl⟩
  have hgiven := p.entries_givenOut
  have hrange := hgiven.perm.mem_iff.1 (List.mem_flatMap.2 ⟨e, he, hn⟩)
  rw [hgiven.names]
  exact (List.mem_range'_1.1 hrange).2

theorem ofName_eq_iff_of_mem_temporaries {t : String} (h : t ∈ p.temporaries) (name : String) :
    Identifier.ofName name = t ↔ Identifier.Spells name t := by
  obtain ⟨stem, hstem, n, -, rfl⟩ := exists_stem_of_mem_temporaries h
  exact Emit.ofName_eq_temporary_iff (Emit.isStem_of_mem_allStems hstem) n name

/-- The temporaries of a program are no two the same, one for each number that was given out, and each is
declared in the code of a block. They differ from the identifiers of the variables, arrays and functions
that blocks name just if no such name spells a temporary, which any name may do: it takes a character that
is no letter or digit, then the temporary's letters and digits, and blanks around it or none. -/
theorem temporaries_fresh_iff (p : Project) : p.temporaries.Nodup ∧
    p.temporaries.length = p.final.names ∧
    (∀ t ∈ p.temporaries, ∃ stem ∈ Emit.allStems, ∃ n < p.final.names, t = Emit.temporary stem n) ∧
    (∀ t ∈ p.temporaries, ∃ id text, (id, Fragment.statement text) ∈ p.final.made ∧
      Emit.DeclaresInt text t) ∧
    (∀ t ∈ p.temporaries, ∀ name, Identifier.ofName name = t ↔ Identifier.Spells name t) ∧
    ((∀ name ∈ p.workspace.givenNames, Identifier.ofName name ∉ p.temporaries) ↔
      ∀ name ∈ p.workspace.givenNames, ∀ t ∈ p.temporaries, ¬Identifier.Spells name t) := by
  refine ⟨p.temporaries_nodup, p.length_temporaries, fun t => exists_stem_of_mem_temporaries,
    fun t => exists_declares_of_mem_temporaries, fun t => ofName_eq_iff_of_mem_temporaries, ?_⟩
  refine forall₂_congr fun name _ => ⟨fun hfree t ht hspells => ?_, fun hfree hmem => ?_⟩
  · exact hfree ((ofName_eq_iff_of_mem_temporaries ht name).2 hspells ▸ ht)
  · exact hfree _ hmem ((ofName_eq_iff_of_mem_temporaries hmem name).1 rfl)

/-- A counting loop whose variable has the name of a temporary. -/
def seized : Project where
  workspace :=
    { blocks := #[
        { id := "loop", type := "controls_for", fields := ⟨[("VAR", "_from0")]⟩,
          values := ⟨[("START", 1)]⟩ },
        { id := "start", type := "variables_get", fields := ⟨[("VAR", "x")]⟩ }]
      top := [0]
      index := [0, 1] }

/-- The loop counts with the temporary that its first bound is in. -/
theorem temporaries_fresh_iff_seized : seized.temporaries = ["_from0", "_to1", "_by2"] ∧
    "_from0" ∈ seized.workspace.givenNames ∧ Identifier.Spells "_from0" "_from0" ∧
    ¬∀ name ∈ seized.workspace.givenNames, Identifier.ofName name ∉ seized.temporaries := by
  have htemporaries : seized.temporaries = ["_from0", "_to1", "_by2"] := by decide +kernel
  have hgiven : "_from0" ∈ seized.workspace.givenNames := by decide
  have hspells : Identifier.Spells "_from0" "_from0" :=
    ⟨'_', "from0".toList, by decide, by decide, by decide⟩
  refine ⟨htemporaries, hgiven, hspells, fun hfresh => ?_⟩
  have hmem : "_from0" ∈ seized.temporaries := htemporaries ▸ List.mem_cons_self
  exact (temporaries_fresh_iff seized).2.2.2.2.2.1 hfresh _ hgiven _ hmem hspells

end Project

end BlockCompiler
