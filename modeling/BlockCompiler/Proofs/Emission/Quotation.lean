import BlockCompiler.Proofs.Document.Text
import BlockCompiler.Proofs.Emission.Speech
import BlockCompiler.Proofs.Text.CommentLines

set_option autoImplicit false

/-! # Diagnostics that quote

The comment line of a diagnostic is one line, unless the diagnostic quotes a text of the user with line
feeds in it. Then each line of the text but the first stands in the program as the user wrote it. -/

namespace BlockCompiler

open Text

/-! ## Lines of a comment -/

namespace Text

/-- Every line feed has the slashes of another comment behind it. -/
def IsCommentBody (cs : List Char) : Prop :=
  ∀ front back, cs = front ++ '\n' :: back → ['/', '/'] <+: back

theorem isCommentBody_of_not_mem {cs : List Char} (h : '\n' ∉ cs) : IsCommentBody cs := by
  rintro front back rfl
  exact absurd (List.mem_append_right front List.mem_cons_self) h

/-- Only the line feeds of a text count, not what stands in front of it. -/
theorem isCommentBody_append_left {line : List Char} (h : '\n' ∉ line) (cs : List Char) :
    IsCommentBody (line ++ cs) ↔ IsCommentBody cs := by
  constructor
  · rintro hbody front back rfl
    exact hbody (line ++ front) back (List.append_assoc _ _ _).symm
  · intro hbody front back heq
    rcases newline_append heq with ⟨more, -, rfl⟩ | ⟨more, rfl, -⟩
    · exact hbody more back rfl
    · exact absurd (List.mem_append_right front List.mem_cons_self) h

/-- Only the line feeds of a text count, not what stands behind it, if that does not go on with a
slash. -/
theorem isCommentBody_append_right {line : List Char} (h : '\n' ∉ line)
    (hslash : line.head? ≠ some '/') (cs : List Char) :
    IsCommentBody (cs ++ line) ↔ IsCommentBody cs := by
  have hslashes : ∀ back, ['/', '/'] <+: back ++ line ↔ ['/', '/'] <+: back := by
    intro back
    refine ⟨fun hstart => ?_, fun hstart => hstart.trans (List.prefix_append _ _)⟩
    cases line with
    | nil => rwa [List.append_nil] at hstart
    | cons c line =>
      have hc : c ≠ '/' := fun hc => hslash (congrArg some hc)
      match back, hstart with
      | [], hstart => exact absurd (List.cons_prefix_cons.1 hstart).1.symm hc
      | [d], hstart =>
        have hrest := (List.cons_prefix_cons.1 hstart).2
        exact absurd (List.cons_prefix_cons.1 hrest).1.symm hc
      | d :: e :: back, hstart =>
        obtain ⟨rfl, hrest⟩ := List.cons_prefix_cons.1 hstart
        obtain ⟨rfl, -⟩ := List.cons_prefix_cons.1 hrest
        exact ⟨back, rfl⟩
  constructor
  · rintro hbody front back rfl
    exact (hslashes back).1 (hbody front (back ++ line) (by simp))
  · intro hbody front back heq
    rcases newline_append heq with ⟨more, -, rfl⟩ | ⟨more, rfl, rfl⟩
    · exact absurd (List.mem_append_right more List.mem_cons_self) h
    · exact (hslashes more).2 (hbody front more rfl)

/-- A line that starts with slashes holds nothing but comments if its text is the body of one. -/
theorem isComments_iff_isCommentBody {cs : List Char} (h : ['/', '/'] <+: cs) :
    IsComments (cs ++ ['\n']) ↔ IsCommentBody cs := by
  have hne : cs ++ ['\n'] ≠ [] := by simp
  have hstart : ['/', '/'] <+: cs ++ ['\n'] := h.trans (List.prefix_append _ _)
  rw [IsComments, forall_mem_lines_iff (by decide)]
  constructor
  · rintro ⟨-, hlines⟩ front back rfl
    have hback := hlines front (back ++ ['\n']) (by simp)
    exact (prefix_line_iff (by decide) []).1 (hback.resolve_left (by simp))
  · refine fun hbody => ⟨.inr hstart, fun front back heq => ?_⟩
    rcases newline_append heq with ⟨more, -, hmore⟩ | ⟨more, rfl, rfl⟩
    · -- the line feed is the last character
      cases more with
      | nil => exact .inl (List.cons.inj hmore).2.symm
      | cons c more => exact absurd (congrArg List.length hmore) (by simp)
    · exact .inr ((hbody front more rfl).trans (List.prefix_append _ _))

end Text

namespace Diagnostic

theorem isComments_comment_iff (d : Diagnostic) :
    IsComments d.comment.toList ↔ IsCommentBody d.message.toList := by
  have hlabel : '\n' ∉ ("// " ++ d.severity.label ++ ": ").toList := by
    cases d.severity <;> decide
  have hcomment : d.comment.toList =
      ("// " ++ d.severity.label ++ ": ").toList ++ d.message.toList ++ ['\n'] := by
    simp [comment]
  have hslashes : ['/', '/'] <+: ("// " ++ d.severity.label ++ ": ").toList ++ d.message.toList := by
    refine List.IsPrefix.trans ?_ (List.prefix_append _ _)
    cases d.severity <;> decide
  rw [hcomment, isComments_iff_isCommentBody hslashes, isCommentBody_append_left hlabel]

end Diagnostic

/-- A quoted text is commented out as far as its line feeds are. -/
theorem Emit.Quotes.isCommentBody_iff {p : Project} {b : Block} {text message : String}
    (h : Emit.Quotes p b text message) :
    IsCommentBody message.toList ↔ IsCommentBody text.toList := by
  obtain ⟨front, back, rfl, hfront, hback, hhead⟩ := h.message_eq
  have hslash : back.toList.head? ≠ some '/' := by rw [hhead]; decide
  rw [String.toList_append, String.toList_append, isCommentBody_append_right hback.line hslash,
    isCommentBody_append_left hfront]

/-! ## Diagnostics of a program -/

namespace Project

/-- A diagnostic quotes a text of the block that it is about. -/
def IsQuoted (p : Project) (d : Diagnostic) (text : String) : Prop :=
  ∃ id b, p.workspace.block? id = some b ∧ Emit.IsOwn b d ∧ Emit.Quotes p b text d.message

variable {p : Project} {d : Diagnostic}

theorem says_of_took {id : BlockId} {b : Block} {es : List Event} {fragment : Fragment}
    (htook : p.Took id b es fragment) (hd : Event.records d ∈ es) : Emit.Says p b d := by
  by_cases hverbatim : Emit.IsVerbatim p b
  · obtain ⟨text, hrecipe⟩ := Emit.recipe_of_verbatim hverbatim id
    obtain ⟨rfl, -⟩ := (hrecipe ▸ htook.path).of_pure
    cases hd
  · exact (Emit.recipe_speaks hverbatim id es fragment htook.path htook.closed).1 d hd

/-- A diagnostic of a program is a sentence, or quotes a text of its block. -/
theorem says_of_mem_diagnostics (hd : d ∈ p.compile.diagnostics) :
    Emit.IsSentence d.message ∨ ∃ text, p.IsQuoted d text := by
  rcases recorded_of_mem_diagnostics hd with
    hcyclic | ⟨b, rfl⟩ | ⟨id, b, es, fragment, hb, htook, hmem⟩
  · exact .inl (hcyclic ▸ Emit.isSentence_cyclic)
  · rw [selfConnectedWarning_message]
    exact .inl ⟨by decide, '.', by decide, by decide⟩
  · refine (says_of_took htook hmem).imp_right ?_
    rintro ⟨hown, text, hquotes⟩
    exact ⟨text, id, b, hb, hown, hquotes⟩

theorem endsTight_comment (h : Emit.EndsVisibly d.message) : EndsTight d.comment.toList :=
  (Emit.isTight_comment h).resolve_left d.comment_ne_empty

/-- The comment line of a diagnostic holds nothing but comments exactly if every line feed in a text that
the diagnostic quotes has the slashes of a comment behind it. Then it holds no code, and C reads it to its
end. -/
theorem diagnostic_isComments_iff (hd : d ∈ p.compile.diagnostics) :
    (IsComments d.comment.toList ↔ ∀ text, p.IsQuoted d text → IsCommentBody text.toList) ∧
    (IsComments d.comment.toList → codeLines d.comment.toList = [] ∧ IsComplete d.comment.toList) := by
  have hsays := says_of_mem_diagnostics hd
  have hends : Emit.EndsVisibly d.message := by
    rcases hsays with hsentence | ⟨text, id, b, -, -, hquotes⟩
    · exact hsentence.ends
    · exact hquotes.endsVisibly
  refine ⟨?_, fun hcomments => (hcomments.isComplete (endsTight_comment hends)).symm⟩
  rw [d.isComments_comment_iff]
  constructor
  · rintro hbody text ⟨id, b, -, -, hquotes⟩
    exact hquotes.isCommentBody_iff.1 hbody
  · intro h
    rcases hsays with hsentence | ⟨text, hquoted⟩
    · exact isCommentBody_of_not_mem hsentence.line
    · have hbody := h text hquoted
      obtain ⟨id, b, -, -, hquotes⟩ := hquoted
      exact hquotes.isCommentBody_iff.2 hbody

end Project

/-- A document with a block whose type is unknown and has a line feed in it. -/
def Document.broken : Document where
  workspace := { blocks := #[{ id := "a\nb#0", type := "a\nb" }], top := [0], index := [0] }
  board? := none

/-- The text of the document above. -/
def Document.brokenText : String := "<xml><block type='a&#10;b'/></xml>"

/-- What is said of the type. -/
def Document.brokenWarning : Diagnostic :=
  { severity := .warning, blockId := "a\nb#0", blockType := "a\nb"
    message := "Unknown block type \"a\nb\"" }

theorem Project.diagnostic_isComments_iff_broken : Document.ofText Document.brokenText = .ok .broken ∧
    Document.brokenWarning ∈ (Document.broken.project none).compile.diagnostics ∧
    ¬IsComments Document.brokenWarning.comment.toList := by
  have htext : Document.ofText Document.brokenText = .ok .broken :=
    Document.ofText_of_chars rfl (by decide +kernel)
  have hmem : Document.brokenWarning ∈ (Document.broken.project none).compile.diagnostics := by
    decide +kernel
  have hquoted : (Document.broken.project none).IsQuoted Document.brokenWarning "a\nb" :=
    ⟨0, _, rfl, ⟨rfl, rfl⟩, .type (by decide +kernel)⟩
  have hbreak : ¬IsCommentBody "a\nb".toList := by
    intro hbody
    exact absurd (hbody ['a'] ['b'] (by decide)) (by decide)
  exact ⟨htext, hmem, fun hcomments =>
    hbreak ((diagnostic_isComments_iff hmem).1.1 hcomments _ hquoted)⟩

end BlockCompiler
