import BlockCompiler.Proofs.Expression.Writing

set_option autoImplicit false

/-! # Identifiers and declarations

Every name becomes a legal identifier, which is not reserved, and the legal identifiers are the names that
stay as they are. A declaration is read back to the word that it declares. -/

namespace BlockCompiler.Identifier

/-- An identifier is not reserved. -/
theorem ofName_not_mem_reserved (name : String) : ofName name ∉ reserved := by
  have htable : ∀ word ∈ reserved, word ++ "_" ∉ reserved := by decide +kernel
  unfold ofName avoidReserved
  split
  · next hreserved => exact htable _ (List.contains_iff_mem.1 hreserved)
  · next hfree => exact fun hmem => hfree (List.contains_iff_mem.2 hmem)

theorem map_wordChar_eq_self {cs : List Char} (h : ∀ c ∈ cs, isWordChar c = true) :
    cs.map wordChar = cs :=
  (List.map_congr_left fun c hc => if_pos (h c hc)).trans (List.map_id cs)

theorem chars_of_isName {cs : List Char} (h : Expression.IsName cs) : chars cs = cs := by
  obtain ⟨c, rest, rfl, hc⟩ := h.leads
  have hword := List.all_eq_true.1 h.word
  have htrim : Text.trim (c :: rest) = c :: rest :=
    Text.trim_eq_self fun d hd => Expression.not_isBlank_of_isWordChar (hword d hd)
  rw [chars, htrim, map_wordChar_eq_self hword, orUnnamed, if_neg (by simp), guardDigit, hc,
    if_neg Bool.false_ne_true]

/-- A word that is not reserved is its own identifier. -/
theorem ofName_eq_self {word : String} (h : Expression.IsName word.toList) (hfree : word ∉ reserved) :
    ofName word = word := by
  rw [ofName, chars_of_isName h, String.ofList_toList, avoidReserved,
    if_neg fun hmem => hfree (List.contains_iff_mem.1 hmem)]

/-! ## Legal identifiers -/

/-- Not empty, ASCII letters, digits and underscores only, no digit in front, and not reserved. -/
structure IsLegal (word : String) : Prop where
  ne_empty : word ≠ ""
  chars : ∀ c ∈ word.toList, c.isAlpha = true ∨ c.isDigit = true ∨ c = '_'
  lead : ∀ c ∈ word.toList.head?, c.isDigit = false
  free : word ∉ reserved

theorem isWordChar_iff {c : Char} :
    isWordChar c = true ↔ c.isAlpha = true ∨ c.isDigit = true ∨ c = '_' := by
  rw [isWordChar, Char.isAlphanum, Bool.or_eq_true, Bool.or_eq_true, decide_eq_true_eq, or_assoc]

theorem isLegal_iff {word : String} :
    IsLegal word ↔ Expression.IsName word.toList ∧ word ∉ reserved := by
  constructor
  · intro h
    refine ⟨⟨List.all_eq_true.2 fun c hc => isWordChar_iff.2 (h.chars c hc), ?_⟩, h.free⟩
    cases hchars : word.toList with
    | nil => exact absurd (String.toList_eq_nil_iff.1 hchars) h.ne_empty
    | cons c rest => exact ⟨c, rest, rfl, h.lead c (by rw [hchars]; rfl)⟩
  · rintro ⟨hname, hfree⟩
    obtain ⟨c, rest, hchars, hc⟩ := hname.leads
    refine ⟨?_, fun d hd => isWordChar_iff.1 (List.all_eq_true.1 hname.word d hd), ?_, hfree⟩
    · rintro rfl
      cases hchars
    · rw [hchars]
      rintro _ ⟨⟩
      exact hc

theorem isLegal_ofName (name : String) : IsLegal (ofName name) :=
  isLegal_iff.2 ⟨Expression.isName_ofName name, ofName_not_mem_reserved name⟩

/-- Every name is turned into a legal identifier and this one into itself; and names that are themselves
legal are left as they are, but no others. -/
theorem ofName_isStable (name : String) : IsLegal (ofName name) ∧
    ofName (ofName name) = ofName name ∧ (ofName name = name ↔ IsLegal name) := by
  have hkeeps : ∀ {word}, IsLegal word → ofName word = word := fun h =>
    ofName_eq_self (isLegal_iff.1 h).1 h.free
  exact ⟨isLegal_ofName name, hkeeps (isLegal_ofName name),
    fun hsame => hsame ▸ isLegal_ofName name, hkeeps⟩

/-! ## Names of a word behind an underscore -/

/-- The name spells a word that starts with an underscore: but for blanks around it, it has any character
that is no letter or digit in place of the underscore, and then the same characters. -/
def Spells (name word : String) : Prop :=
  ∃ c rest, c.isAlphanum = false ∧ word.toList = '_' :: rest ∧ Text.trim name.toList = c :: rest

theorem wordChar_eq_underscore {c : Char} : wordChar c = '_' ↔ c.isAlphanum = false := by
  unfold wordChar isWordChar
  constructor
  · intro h
    split at h
    · next hword =>
      subst h
      decide
    · next hword => exact (Bool.or_eq_false_iff.1 (Bool.eq_false_iff.2 hword)).1
  · intro h
    split
    · next hword => simpa [h] using hword
    · rfl

theorem eq_of_wordChar_isAlphanum {c : Char} (h : (wordChar c).isAlphanum = true) : wordChar c = c := by
  unfold wordChar at h ⊢
  split
  · rfl
  · next hword =>
    rw [if_neg hword] at h
    cases h

/-- Letters and digits only come of themselves. -/
theorem map_wordChar_eq_iff {cs ds : List Char} (h : ∀ d ∈ ds, d.isAlphanum = true) :
    cs.map wordChar = ds ↔ cs = ds := by
  constructor
  · rintro rfl
    refine ((List.map_congr_left fun c hc => ?_).trans (List.map_id cs)).symm
    exact eq_of_wordChar_isAlphanum (h _ (List.mem_map_of_mem hc))
  · rintro rfl
    exact map_wordChar_eq_self fun c hc => by rw [isWordChar, h c hc, Bool.true_or]

/-- The steps before reserved words are told apart yield an underscore, a letter and more letters and
digits. -/
theorem chars_eq_iff {cs rest : List Char} {a : Char} (ha : a.isDigit = false)
    (hrest : ∀ d ∈ a :: rest, d.isAlphanum = true) :
    chars cs = '_' :: a :: rest ↔ ∃ c, c.isAlphanum = false ∧ Text.trim cs = c :: a :: rest := by
  unfold chars
  cases Text.trim cs with
  | nil => simp [orUnnamed, guardDigit]
  | cons c ds =>
    have hchars : guardDigit (orUnnamed ((c :: ds).map wordChar)) =
        if (wordChar c).isDigit then '_' :: wordChar c :: ds.map wordChar
        else wordChar c :: ds.map wordChar := rfl
    rw [hchars]
    split
    · -- a digit is kept behind the underscore, where a letter has to be
      next hdigit =>
      constructor
      · intro h
        rw [(List.cons.inj (List.cons.inj h).2).1, ha] at hdigit
        cases hdigit
      · rintro ⟨d, hd, heq⟩
        rw [(List.cons.inj heq).1, wordChar_eq_underscore.2 hd] at hdigit
        exact absurd hdigit (by decide)
    · rw [List.cons.injEq, wordChar_eq_underscore, map_wordChar_eq_iff hrest]
      constructor
      · rintro ⟨hc, rfl⟩
        exact ⟨c, hc, rfl⟩
      · rintro ⟨d, hd, heq⟩
        obtain ⟨rfl, rfl⟩ := List.cons.inj heq
        exact ⟨hd, rfl⟩

/-- Telling reserved words apart does not yield a word without an underscore at its end. -/
theorem avoidReserved_eq_iff {name word : String} (hlast : word.toList.getLast? ≠ some '_')
    (hfree : word ∉ reserved) : avoidReserved name = word ↔ name = word := by
  unfold avoidReserved
  split
  · next hreserved =>
    constructor
    · rintro rfl
      refine absurd ?_ hlast
      rw [String.toList_append]
      exact List.getLast?_concat
    · rintro rfl
      exact absurd (List.contains_iff_mem.1 hreserved) hfree
  · exact Iff.rfl

/-- A word of an underscore, a letter and more letters and digits is the identifier of the names that
spell it. -/
theorem ofName_eq_iff_spells {word : String} {rest : List Char} {a : Char}
    (hword : word.toList = '_' :: a :: rest) (ha : a.isDigit = false)
    (hrest : ∀ d ∈ a :: rest, d.isAlphanum = true) (name : String) :
    ofName name = word ↔ Spells name word := by
  have hlast : word.toList.getLast? ≠ some '_' := by
    rw [hword, List.getLast?_cons_cons]
    intro h
    exact absurd (hrest _ (List.mem_of_getLast? h)) (by decide)
  have hfree : word ∉ reserved := by
    have hheads : ∀ w ∈ reserved, w.toList.head? ≠ some '_' := by decide +kernel
    exact fun hmem => hheads word hmem (congrArg List.head? hword)
  rw [ofName, avoidReserved_eq_iff hlast hfree, ← String.toList_inj, String.toList_ofList, hword,
    chars_eq_iff ha hrest]
  constructor
  · rintro ⟨c, hc, htrim⟩
    exact ⟨c, _, hc, hword, htrim⟩
  · rintro ⟨c, rest', hc, hword', htrim⟩
    rw [hword] at hword'
    obtain rfl := (List.cons.inj hword').2
    exact ⟨c, hc, htrim⟩

/-! ## Declarations -/

/-- The characters that end the name in a declaration. -/
def declaratorEnds : List Char := ['[', '(', ';']

/-- The name that a declaration declares: the last word in front of the first bracket or of the
semicolon. -/
def ofDeclaration (text : String) : String :=
  let front := text.toList.takeWhile fun c => !declaratorEnds.contains c
  String.ofList (front.reverse.takeWhile isWordChar).reverse

theorem not_mem_declaratorEnds {c : Char} (h : isWordChar c = true) :
    declaratorEnds.contains c = false := by
  rw [Bool.eq_false_iff]
  intro hmem
  have hends : declaratorEnds.all (fun c => !isWordChar c) = true := by decide
  have hc := List.all_eq_true.1 hends c (List.contains_iff_mem.1 hmem)
  rw [h] at hc
  cases hc

/-- The name stands behind the type and in front of what ends it. -/
theorem ofDeclaration_eq {lead name tail : String} {c d : Char}
    (hlead : lead.toList.all (fun c => !declaratorEnds.contains c) = true)
    (hc : lead.toList.getLast? = some c) (hapart : isWordChar c = false)
    (hname : name.toList.all isWordChar = true) (hd : tail.toList.head? = some d)
    (hends : declaratorEnds.contains d = true) : ofDeclaration (lead ++ name ++ tail) = name := by
  obtain ⟨tail', htail⟩ : ∃ tail', tail.toList = d :: tail' := by
    cases htail : tail.toList with
    | nil => rw [htail] at hd; cases hd
    | cons d' tail' => rw [htail] at hd; exact ⟨tail', by rw [Option.some_inj.1 hd]⟩
  have hfront : (lead ++ name ++ tail).toList.takeWhile (fun c => !declaratorEnds.contains c) =
      lead.toList ++ name.toList := by
    rw [String.toList_append, String.toList_append, htail, List.takeWhile_append_of_pos,
      List.takeWhile_cons_of_neg (by simp only [hends, Bool.not_true]; exact Bool.false_ne_true),
      List.append_nil]
    intro e he
    rcases List.mem_append.1 he with he | he
    · exact List.all_eq_true.1 hlead e he
    · rw [not_mem_declaratorEnds (List.all_eq_true.1 hname e he), Bool.not_false]
  have hword : (lead.toList ++ name.toList).reverse.takeWhile isWordChar = name.toList.reverse := by
    obtain ⟨front, hlast⟩ := List.getLast?_eq_some_iff.1 hc
    rw [hlast, List.reverse_append, List.reverse_append, List.takeWhile_append_of_pos,
      List.reverse_singleton, List.singleton_append,
      List.takeWhile_cons_of_neg (by simp [hapart]), List.append_nil]
    exact fun e he => List.all_eq_true.1 hname e (List.mem_reverse.1 he)
  rw [ofDeclaration, hfront, hword, List.reverse_reverse, String.ofList_toList]

end BlockCompiler.Identifier
