import BlockCompiler.Proofs.Text.Passage

set_option autoImplicit false

/-! # Diagnostics in a text

A text shows a diagnostic by its comment line or, where a value was expected, by a block comment in
front of the value. It goes on to do so when other code is put around the text. -/

namespace BlockCompiler

open Text Comment

namespace Diagnostic

/-- What the comment of a diagnostic says. -/
def words (d : Diagnostic) : List Char := (d.severity.label ++ ": " ++ d.message).toList

/-- What a block comment says of a diagnostic: the same, with the marks split that would close it. -/
def note (d : Diagnostic) : List Char := splitClosers d.words

theorem comment_eq (d : Diagnostic) : d.comment = "// " ++ String.ofList d.words ++ "\n" := by
  rw [comment, words, String.ofList_toList]
  simp only [String.append_assoc]

/-- The message stands on one line and ends with a visible character, which begins no mark. -/
structure IsOneLine (d : Diagnostic) : Prop where
  line : '\n' ∉ d.message.toList
  last : ∃ c, d.message.toList.getLast? = some c ∧ isBlank c = false ∧ c ≠ '*'

/-- A text shows a diagnostic: a line of it is the comment line, or a block comment in it holds what the
line says, with the marks split that would close it. -/
def IsShown (d : Diagnostic) (text : String) : Prop :=
  HasLine d.comment text ∨ Holds d.note text

theorem isShown_comment (d : Diagnostic) : d.IsShown d.comment := by
  have hline : HasLine d.comment (d.comment ++ "") := .of_start ""
  rw [String.append_empty] at hline
  exact .inl hline

variable {d : Diagnostic} {text : String}

theorem IsShown.append_right (h : d.IsShown text) (rest : String) : d.IsShown (text ++ rest) :=
  Or.imp (·.append_right rest) (·.append_right rest) h

theorem IsShown.append_left (h : d.IsShown text) {front : String} (hfront : IsClosed front) :
    d.IsShown (front ++ text) :=
  Or.imp (·.append_left hfront) (·.append_left front) h

theorem IsShown.intercalate {separator : String} {texts : List String}
    (hseparator : endsLine separator = true) (htext : text ∈ texts) (h : d.IsShown text) :
    d.IsShown (separator.intercalate texts) := by
  obtain ⟨before, after, rfl⟩ := List.append_of_mem htext
  obtain ⟨front, back, heq, hfront⟩ := exists_intercalate_eq separator text before after
  rw [heq]
  refine (h.append_left ?_).append_right back
  rcases hfront with rfl | ⟨lead, rfl⟩
  · exact isClosed_empty
  · exact IsClosed.of_end lead hseparator

theorem isPassage_words (h : d.IsOneLine) : IsPassage d.words := by
  have hlabel : ∀ severity : Severity, ∃ c cs, severity.label.toList = c :: cs ∧
      isBlank c = false ∧ c ≠ '/' ∧ '\n' ∉ c :: cs := by
    rintro (_ | _)
    · exact ⟨'W', _, rfl, rfl, by decide, by decide⟩
    · exact ⟨'E', _, rfl, rfl, by decide, by decide⟩
  obtain ⟨c, cs, hchars, hvisible, hslash, hline⟩ := hlabel d.severity
  obtain ⟨e, hlast, hend⟩ := h.last
  have hwords : d.words = (c :: cs) ++ [':', ' '] ++ d.message.toList := by
    rw [words, String.toList_append, String.toList_append, hchars]
    rfl
  refine ⟨?_, ⟨c, by rw [hwords]; rfl, hvisible, hslash⟩, ⟨e, ?_, hend⟩⟩
  · rw [hwords]
    intro hmem
    rcases List.mem_append.1 hmem with hmem | hmem
    · rcases List.mem_append.1 hmem with hmem | hmem
      · exact hline hmem
      · exact absurd hmem (by decide)
    · exact h.line hmem
  · rw [hwords, List.getLast?_append, hlast]
    rfl

theorem IsShown.indent (h : d.IsShown text) (hd : d.IsOneLine) {lead : String}
    (hlead : ∀ c ∈ lead.toList, c = ' ') : d.IsShown (Text.indent text lead) := by
  refine h.imp (fun hline => ?_) (·.indent lead)
  rw [comment_eq] at hline ⊢
  refine hline.indent_line hlead ?_ ?_
  · rw [String.toList_append]
    rfl
  · have hwords := (isPassage_words hd).line
    simp [hwords]

/-- What is shown by lines of comments is shown by the block comment that they become. -/
theorem IsShown.beforeValue (h : d.IsShown text) (hd : d.IsOneLine) (value : String) :
    Holds d.note (Comment.beforeValue text value) := by
  have hwords := isPassage_words hd
  rcases h with ⟨before, lead, rest, htext, -⟩ | hholds
  · refine holds_beforeValue hwords ?_ value
    rw [htext, comment_eq]
    exact ⟨before ++ lead ++ "// ".toList, '\n' :: rest, by simp⟩
  · have hsplit := holds_beforeValue (isPassage_splitClosers hwords) hholds.part_infix value
    rwa [splitClosers_eq_self (closer_not_within_splitClosers _)] at hsplit

end Diagnostic

end BlockCompiler
