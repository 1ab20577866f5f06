import BlockCompiler.Fragment
import Mathlib.Data.List.TakeWhile

set_option autoImplicit false

/-! # Comments in front of values

A block comment in front of a value holds the texts of line comments. It consists of their characters
and of blanks, it holds no line feed, and no mark in it closes it. -/

namespace BlockCompiler

namespace Text

/-- Trimming takes off blanks at both ends. -/
theorem trim_spec (cs : List Char) : ∃ lead trail, cs = lead ++ trim cs ++ trail ∧
    (∀ c ∈ lead, isBlank c = true) ∧ ∀ c ∈ trail, isBlank c = true := by
  have hleft : cs = cs.takeWhile isBlank ++ trimLeft cs := List.takeWhile_append_dropWhile.symm
  have hright : trimLeft cs =
      trim cs ++ ((trimLeft cs).reverse.takeWhile isBlank).reverse := by
    rw [trim, trimRight, ← List.reverse_append, List.takeWhile_append_dropWhile,
      List.reverse_reverse]
  refine ⟨cs.takeWhile isBlank, ((trimLeft cs).reverse.takeWhile isBlank).reverse, ?_,
    fun c hc => List.mem_takeWhile_imp hc,
    fun c hc => List.mem_takeWhile_imp (List.mem_reverse.1 hc)⟩
  rw [List.append_assoc, ← hright]
  exact hleft

theorem mem_of_mem_trim {c : Char} {cs : List Char} (h : c ∈ trim cs) : c ∈ cs := by
  obtain ⟨lead, trail, hcs, -, -⟩ := trim_spec cs
  rw [hcs]
  exact List.mem_append_left _ (List.mem_append_right _ h)

/-- Trimming takes off no visible character. -/
theorem mem_trim {c : Char} {cs : List Char} (h : c ∈ cs) (hvisible : isBlank c = false) :
    c ∈ trim cs := by
  obtain ⟨lead, trail, hcs, hlead, htrail⟩ := trim_spec cs
  rw [hcs] at h
  rcases List.mem_append.1 h with h | h
  · rcases List.mem_append.1 h with h | h
    · exact absurd (hlead c h) (Bool.eq_false_iff.1 hvisible)
    · exact h
  · exact absurd (htrail c h) (Bool.eq_false_iff.1 hvisible)

/-- A piece consists of characters of the text other than the separator. -/
theorem mem_of_mem_pieces {separator c : Char} {cs piece : List Char}
    (h : piece ∈ pieces separator cs) (hc : c ∈ piece) : c ∈ cs ∧ c ≠ separator := by
  induction cs generalizing piece with
  | nil =>
    obtain rfl := List.mem_singleton.1 h
    cases hc
  | cons d cs ih =>
    rw [pieces] at h
    split at h
    · rcases List.mem_cons.1 h with rfl | h
      · cases hc
      · obtain ⟨hmem, hne⟩ := ih h hc
        exact ⟨List.mem_cons_of_mem d hmem, hne⟩
    · next hd =>
      cases hpieces : pieces separator cs with
      | nil =>
        rw [hpieces] at h
        obtain rfl := List.mem_singleton.1 h
        obtain rfl := List.mem_singleton.1 hc
        exact ⟨List.mem_cons_self, hd⟩
      | cons first others =>
        rw [hpieces] at h ih
        have hother : ∀ piece ∈ first :: others, c ∈ piece → c ∈ d :: cs ∧ c ≠ separator :=
          fun piece hpiece hc => (ih hpiece hc).imp_left (List.mem_cons_of_mem d)
        rcases List.mem_cons.1 h with rfl | h
        · rcases List.mem_cons.1 hc with rfl | hc
          · exact ⟨List.mem_cons_self, hd⟩
          · exact hother first List.mem_cons_self hc
        · exact hother piece (List.mem_cons_of_mem first h) hc

/-- Texts that are joined consist of their characters and those of the separator. -/
theorem mem_of_mem_intercalate {c : Char} {separator : List Char} {texts : List (List Char)}
    (h : c ∈ separator.intercalate texts) : c ∈ separator ∨ ∃ text ∈ texts, c ∈ text := by
  induction texts with
  | nil => cases h
  | cons text texts ih =>
    cases texts with
    | nil =>
      rw [List.intercalate_singleton] at h
      exact .inr ⟨text, List.mem_cons_self, h⟩
    | cons next texts =>
      rw [List.intercalate_cons_cons, List.mem_append, List.mem_append] at h
      rcases h with (h | h) | h
      · exact .inr ⟨text, List.mem_cons_self, h⟩
      · exact .inl h
      · refine (ih h).imp_right ?_
        rintro ⟨other, hother, hc⟩
        exact ⟨other, List.mem_cons_of_mem text hother, hc⟩

end Text

namespace Comment

theorem mem_of_mem_dropOpeners {c : Char} {cs : List Char} (h : c ∈ dropOpeners cs) : c ∈ cs := by
  induction cs using dropOpeners.induct with
  | case1 cs ih =>
    rw [dropOpeners] at h
    exact List.mem_cons_of_mem _ (List.mem_cons_of_mem _ (List.mem_cons_of_mem _ (ih h)))
  | case2 cs hcs =>
    rw [dropOpeners] at h
    · exact h
    · exact hcs

theorem mem_of_mem_splitClosers {c : Char} {cs : List Char} (h : c ∈ splitClosers cs) :
    c ∈ cs ∨ c = ' ' := by
  induction cs using splitClosers.induct with
  | case1 cs ih =>
    rw [splitClosers] at h
    simp only [List.mem_cons] at h ⊢
    grind
  | case2 d cs hne ih =>
    rw [splitClosers] at h
    · simp only [List.mem_cons] at h ⊢
      grind
    · exact hne
  | case3 => exact .inl h

/-- The text of a comment line is on one line. -/
theorem mem_of_mem_texts {c : Char} {cs line : List Char} (h : line ∈ texts cs) (hc : c ∈ line) :
    c ∈ cs ∧ c ≠ '\n' := by
  obtain ⟨piece, hpiece, rfl⟩ := List.mem_map.1 (List.mem_filter.1 h).1
  exact Text.mem_of_mem_pieces hpiece (Text.mem_of_mem_trim (mem_of_mem_dropOpeners hc))

/-- What stands in the block comment in front of a value. -/
def body (comments : String) : List Char :=
  splitClosers (List.intercalate [' '] (texts comments.toList))

theorem beforeValue_eq (comments value : String) :
    beforeValue comments value = "/* " ++ String.ofList (body comments) ++ " */ " ++ value := rfl

theorem mem_of_mem_body {c : Char} {comments : String} (h : c ∈ body comments) :
    c = ' ' ∨ (c ∈ comments.toList ∧ c ≠ '\n') := by
  rcases mem_of_mem_splitClosers h with h | rfl
  · rcases Text.mem_of_mem_intercalate h with h | ⟨line, hline, hc⟩
    · exact .inl (List.mem_singleton.1 h)
    · exact .inr (mem_of_mem_texts hline hc)
  · exact .inl rfl

end Comment

end BlockCompiler
