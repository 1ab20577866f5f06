import BlockCompiler.Emit.Sound
import BlockCompiler.Proofs.Context
import BlockCompiler.Proofs.Emission.Nesting
import BlockCompiler.Proofs.Expression.Writing
import Mathlib.Data.List.TakeWhile

set_option autoImplicit false

/-! # Short names of files

Which texts name a file on the card, and what is left of them. A short name has a stem of one to eight
characters and an extension of one to three, both of them the start of what the text gives, so it is a
name itself, and its own short name whatever the standard extension is. -/

namespace BlockCompiler

namespace FileName

open Text

/-! ## Names -/

/-- One or more characters of a stem. -/
def IsStem (cs : List Char) : Prop := cs ≠ [] ∧ ∀ c ∈ cs, isStemChar c = true

/-- One or more letters and digits. -/
def IsExtension (cs : List Char) : Prop := cs ≠ [] ∧ ∀ c ∈ cs, c.isAlphanum = true

/-- A stem alone, or in front of a point and an extension. -/
def spelled (stem : List Char) : Option (List Char) → List Char
  | none => stem
  | some extension => stem ++ '.' :: extension

/-- The characters are a file name: a stem, and maybe an extension behind a point. -/
structure IsName (cs stem : List Char) (extension? : Option (List Char)) : Prop where
  eq : cs = spelled stem extension?
  isStem : IsStem stem
  isExtension : ∀ extension ∈ extension?, IsExtension extension

/-- The text is a stem of up to eight characters, a point and an extension of up to three. -/
structure IsShort (name : String) (stem extension : List Char) : Prop where
  eq : name.toList = stem ++ '.' :: extension
  isStem : IsStem stem
  length_stem : stem.length ≤ 8
  isExtension : IsExtension extension
  length_extension : extension.length ≤ 3

theorem IsStem.take {stem : List Char} (h : IsStem stem) : IsStem (stem.take 8) :=
  ⟨by simp [h.1], fun c hc => h.2 c (List.mem_of_mem_take hc)⟩

theorem IsExtension.take {extension : List Char} (h : IsExtension extension) :
    IsExtension (extension.take 3) :=
  ⟨by simp [h.1], fun c hc => h.2 c (List.mem_of_mem_take hc)⟩

theorem isStemChar_of_isAlphanum {c : Char} (h : c.isAlphanum = true) : isStemChar c = true := by
  simp [isStemChar, h]

theorem not_isBlank_of_isStemChar {c : Char} (h : isStemChar c = true) : isBlank c = false := by
  simp only [isStemChar, Bool.or_eq_true, decide_eq_true_eq] at h
  rcases h with ((h | rfl) | rfl) | rfl
  · exact Expression.not_isBlank_of_isWordChar (by simp [Identifier.isWordChar, h])
  · rfl
  · rfl
  · rfl

/-! ## Parts of a name -/

section Parts

variable {standard cs stem extension : List Char}

/-- The stem goes on to the point or to the end. -/
theorem parts?_of_isName {extension? : Option (List Char)} (h : IsName cs stem extension?) :
    parts? standard cs = some (stem, extension?.getD standard) := by
  obtain ⟨rfl, ⟨hne, hstem⟩, hextension⟩ := h
  have hpoint : ¬isStemChar '.' = true := by decide
  cases extension? with
  | none =>
    have htake : stem.takeWhile isStemChar = stem := List.takeWhile_eq_self_iff.2 hstem
    have hdrop : stem.dropWhile isStemChar = [] := List.dropWhile_eq_nil_iff.2 hstem
    simp [parts?, spelled, htake, hdrop, hne]
  | some extension =>
    obtain ⟨hextensionNe, hchars⟩ := hextension extension rfl
    have htake : (stem ++ '.' :: extension).takeWhile isStemChar = stem := by
      rw [List.takeWhile_append_of_pos hstem, List.takeWhile_cons_of_neg hpoint, List.append_nil]
    have hdrop : (stem ++ '.' :: extension).dropWhile isStemChar = '.' :: extension := by
      rw [List.dropWhile_append_of_pos hstem, List.dropWhile_cons_of_neg hpoint]
    have hall : extension.all Char.isAlphanum = true := List.all_eq_true.2 hchars
    simp [parts?, spelled, htake, hdrop, hne, hextensionNe, hall]

theorem isName_of_parts? (h : parts? standard cs = some (stem, extension)) :
    ∃ extension?, IsName cs stem extension? ∧ extension = extension?.getD standard := by
  have hsplit : cs = cs.takeWhile isStemChar ++ cs.dropWhile isStemChar :=
    List.takeWhile_append_dropWhile.symm
  have hchars : ∀ c ∈ cs.takeWhile isStemChar, isStemChar c = true := fun c hc =>
    List.mem_takeWhile_imp hc
  unfold parts? at h
  dsimp only at h
  split at h
  · cases h
  · next hne =>
    have hstem : IsStem (cs.takeWhile isStemChar) := ⟨by simpa using hne, hchars⟩
    split at h
    · next hdrop =>
      obtain ⟨rfl, rfl⟩ := Prod.mk.inj (Option.some_inj.1 h)
      rw [hdrop, List.append_nil] at hsplit
      exact ⟨none, ⟨hsplit, hstem, nofun⟩, rfl⟩
    · next rest hdrop =>
      split at h
      · next hrest =>
        obtain ⟨rfl, rfl⟩ := Prod.mk.inj (Option.some_inj.1 h)
        rw [hdrop] at hsplit
        refine ⟨some rest, ⟨hsplit, hstem, ?_⟩, rfl⟩
        rintro _ ⟨⟩
        simpa [IsExtension] using hrest
      · cases h
    · cases h

end Parts

/-! ## Shortening -/

/-- The short name of a file name: the start of its stem and that of its extension, or of the standard
one. -/
theorem short_eq_ok_iff {text standard name : String} : short text standard = .ok name ↔
    ∃ stem extension?, IsName (trim text.toList) stem extension? ∧
      name = String.ofList (stem.take 8 ++ '.' :: (extension?.getD standard.toList).take 3) := by
  unfold short
  constructor
  · intro h
    split at h
    · next stem extension hparts =>
      obtain ⟨extension?, hname, rfl⟩ := isName_of_parts? hparts
      exact ⟨stem, extension?, hname, (Except.ok.inj h).symm⟩
    · cases h
  · rintro ⟨stem, extension?, hname, rfl⟩
    rw [parts?_of_isName hname]

/-- A short name has nothing to cut off. -/
theorem IsShort.short_eq {name : String} {stem extension : List Char} (h : IsShort name stem extension)
    (other : String) : short name other = .ok name := by
  have hvisible : ∀ c ∈ name.toList, isBlank c = false := by
    intro c hc
    rw [h.eq] at hc
    rcases List.mem_append.1 hc with hc | hc
    · exact not_isBlank_of_isStemChar (h.isStem.2 c hc)
    · rcases List.mem_cons.1 hc with rfl | hc
      · rfl
      · exact not_isBlank_of_isStemChar (isStemChar_of_isAlphanum (h.isExtension.2 c hc))
  have hname : IsName (trim name.toList) stem (some extension) := by
    refine ⟨(trim_eq_self hvisible).trans h.eq, h.isStem, ?_⟩
    rintro _ ⟨⟩
    exact h.isExtension
  refine short_eq_ok_iff.2 ⟨stem, some extension, hname, ?_⟩
  rw [Option.getD_some, List.take_of_length_le h.length_stem, List.take_of_length_le h.length_extension,
    ← h.eq, String.ofList_toList]

/-- What shortening yields is short. -/
theorem isShort_of_isName {cs stem : List Char} {extension? : Option (List Char)} {standard : List Char}
    (h : IsName cs stem extension?) (hstandard : IsExtension standard) :
    IsShort (String.ofList (stem.take 8 ++ '.' :: (extension?.getD standard).take 3)) (stem.take 8)
      ((extension?.getD standard).take 3) where
  eq := String.toList_ofList
  isStem := h.isStem.take
  length_stem := List.length_take_le 8 stem
  isExtension := by
    cases extension? with
    | none => exact hstandard.take
    | some extension => exact (h.isExtension extension rfl).take
  length_extension := List.length_take_le 3 _

end FileName

/-! ## Playing files -/

namespace Emit

variable (p : Project) (b : Block) (s : Emission)

/-- The block warns about itself in place of its code. -/
def Warns (code : Recipe String) : Prop :=
  ∃ message, let d : Diagnostic := ⟨.warning, b.id, b.type, message⟩
    (p.run code s).1 = d.comment ∧
      (p.run code s).2.context.diagnostics = s.context.diagnostics ++ [d]

/-- A card that cannot be used is warned about, and nothing else is said. -/
theorem run_cardWarning? :
    (p.run (cardWarning? p b) s).1 = none ∧
        (p.run (cardWarning? p b) s).2.context.diagnostics = s.context.diagnostics ∨
      ∃ message, let d : Diagnostic := ⟨.warning, b.id, b.type, message⟩
        (p.run (cardWarning? p b) s).1 = some d.comment ∧
          (p.run (cardWarning? p b) s).2.context.diagnostics = s.context.diagnostics ++ [d] := by
  unfold cardWarning?
  split
  · exact .inl ⟨rfl, rfl⟩
  · split
    · refine .inl ⟨rfl, ?_⟩
      have hquiet := s.perform_diagnostics (.register .setups cardSetup "sd_mount(22, 23, 24, 25);")
      exact hquiet.trans (List.append_nil _)
    · exact .inr ⟨_, rfl, rfl⟩

/-- A player warns or plays a file with a short name. -/
theorem wavPlay_cases : Warns p b s (wavPlay p b) ∨
    ∃ name stem extension, (p.run (wavPlay p b) s).1 = "wav_play(\"" ++ name ++ "\");\n" ∧
      FileName.IsShort name stem extension := by
  have hstandard : FileName.IsExtension "wav".toList := ⟨by decide, List.all_eq_true.1 (by decide)⟩
  unfold Warns wavPlay
  simp only [p.run_bind]
  rcases run_cardWarning? p b s with ⟨hnone, hquiet⟩ | ⟨message, hsome, hsaid⟩
  · rw [hnone]
    generalize (p.run (cardWarning? p b) s).2 = t at hquiet
    cases hshort : FileName.short (beforePoint (p.field b "FILENAME")) "wav" with
    | error invalid =>
      refine .inl ⟨invalid.message ++ "!", rfl, ?_⟩
      rw [← hquiet]
      rfl
    | ok name =>
      obtain ⟨stem, extension?, hname, rfl⟩ := FileName.short_eq_ok_iff.1 hshort
      exact .inr ⟨_, _, _, rfl, FileName.isShort_of_isName hname hstandard⟩
  · rw [hsome]
    exact .inl ⟨message, rfl, hsaid⟩

end Emit

namespace FileName

open Text

/-- A text has a short name exactly if it is a file name but for blanks around it. The short name has a
stem of one to eight characters and an extension of one to three, which are the start of the stem and of
the extension given, or else of the standard one; and it is its own short name. So a player either warns
or plays a file with such a name. -/
theorem short_isShort {standard : String} (hstandard : IsExtension standard.toList) (text : String) :
    ((∃ name, short text standard = .ok name) ↔
        ∃ stem extension?, IsName (trim text.toList) stem extension?) ∧
      (∀ name, short text standard = .ok name →
        ∃ stem extension? stem' extension', IsName (trim text.toList) stem extension? ∧
          IsShort name stem' extension' ∧ stem' <+: stem ∧
          extension' <+: extension?.getD standard.toList ∧ ∀ other, short name other = .ok name) ∧
      ∀ (p : Project) (b : Block) (s : Emission), Emit.Warns p b s (Emit.wavPlay p b) ∨
        ∃ name stem extension, (p.run (Emit.wavPlay p b) s).1 = "wav_play(\"" ++ name ++ "\");\n" ∧
          IsShort name stem extension := by
  refine ⟨⟨?_, ?_⟩, fun name hshort => ?_, Emit.wavPlay_cases⟩
  · rintro ⟨name, hshort⟩
    obtain ⟨stem, extension?, hname, -⟩ := short_eq_ok_iff.1 hshort
    exact ⟨stem, extension?, hname⟩
  · rintro ⟨stem, extension?, hname⟩
    exact ⟨_, short_eq_ok_iff.2 ⟨stem, extension?, hname, rfl⟩⟩
  · obtain ⟨stem, extension?, hname, rfl⟩ := short_eq_ok_iff.1 hshort
    have hisShort := isShort_of_isName hname hstandard
    exact ⟨stem, extension?, _, _, hname, hisShort, List.take_prefix 8 stem, List.take_prefix 3 _,
      hisShort.short_eq⟩

/-- A long name with blanks around it. -/
theorem short_isShort_datalogger : IsExtension "txt".toList ∧
    short "\u3000datalogger.text\n" "txt" = .ok "datalogg.tex" ∧
    ∀ other, short "datalogg.tex" other = .ok "datalogg.tex" := by
  have hstandard : IsExtension "txt".toList := ⟨by decide, List.all_eq_true.1 (by decide)⟩
  have hshort : short "\u3000datalogger.text\n" "txt" = .ok "datalogg.tex" := by decide +kernel
  obtain ⟨-, -, -, -, -, -, -, -, hagain⟩ :=
    (short_isShort hstandard "\u3000datalogger.text\n").2.1 _ hshort
  exact ⟨hstandard, hshort, hagain⟩

end FileName

end BlockCompiler
