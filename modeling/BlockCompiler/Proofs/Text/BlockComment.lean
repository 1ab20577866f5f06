import BlockCompiler.Proofs.Text.Passage
import BlockCompiler.Proofs.Text.Reading

set_option autoImplicit false

/-! # Block comments in front of values

The comment in front of a value is closed by the mark that its writer put there, whatever the texts in
it hold, and stands on one line. So C reads a blank in its place, and then the value. -/

namespace BlockCompiler

/-! ## Reading a comment -/

namespace Reader

/-- C stays inside of a block comment as long as no mark closes it, and reads no code there. -/
theorem after_unclosed {r : Reader} {cs : List Char}
    (hr : r = .block ∨ r = .star ∧ cs.head? ≠ some '/') (h : ¬Comment.closer <:+: cs) :
    (r.after cs = .block ∨ r.after cs = .star) ∧ r.codeOf cs = [] := by
  induction cs generalizing r with
  | nil => exact ⟨hr.imp_right And.left, rfl⟩
  | cons c cs ih =>
    have hcs : ¬Comment.closer <:+: cs := fun hwithin => h (List.infix_cons hwithin)
    have hadds : r.adds c = [] := by rcases hr with rfl | ⟨rfl, -⟩ <;> rfl
    have hslash : r = .star → c ≠ '/' := by
      rintro rfl rfl
      rcases hr with hr | ⟨-, hhead⟩
      · cases hr
      · exact hhead rfl
    -- behind a star the mark is not completed
    have hstep : r.step c = .block ∨ r.step c = .star ∧ cs.head? ≠ some '/' := by
      by_cases hc : c = '*'
      · subst hc
        refine .inr ⟨by rcases hr with rfl | ⟨rfl, -⟩ <;> rfl, fun hhead => h ?_⟩
        obtain ⟨rest, rfl⟩ := List.head?_eq_some_iff.1 hhead
        exact (List.prefix_append Comment.closer rest).isInfix
      · refine .inl ?_
        rcases hr with rfl | ⟨rfl, -⟩
        · rw [step, if_neg hc]
        · rw [step, if_neg (hslash rfl), if_neg hc]
    obtain ⟨hafter, hcode⟩ := ih hstep hcs
    refine ⟨hafter, ?_⟩
    rw [codeOf, hadds, hcode]
    rfl

/-- A comment that ends with its first closing mark is a blank. -/
theorem reads_blockComment {inner : List Char} (h : ¬Comment.closer <:+: inner) (rest : List Char) :
    reads .code ('/' :: '*' :: (inner ++ '*' :: '/' :: rest)) = ' ' :: reads .code rest := by
  obtain ⟨hafter, hcode⟩ := after_unclosed (r := .block) (.inl rfl) h
  have hmark : (after .block inner).reads ('*' :: '/' :: rest) = reads .code rest := by
    rcases hafter with hafter | hafter <;> rw [hafter] <;> rfl
  have hopening : reads .code ('/' :: '*' :: (inner ++ '*' :: '/' :: rest)) =
      ' ' :: reads .block (inner ++ '*' :: '/' :: rest) := rfl
  rw [hopening, reads_append, hcode, hmark, List.nil_append]

end Reader

namespace Comment

open Text

/-! ## The comment in front of a value -/

/-- What stands between the marks of the comment. -/
def inner (comments : String) : List Char := ' ' :: (body comments ++ [' '])

theorem toList_beforeValue (comments value : String) : (beforeValue comments value).toList =
    '/' :: '*' :: (inner comments ++ '*' :: '/' :: ' ' :: value.toList) := by
  rw [beforeValue_eq]
  simp [inner]

theorem newline_not_mem_inner (comments : String) : '\n' ∉ inner comments := by
  intro hmem
  simp only [inner, List.mem_cons, List.mem_append, List.not_mem_nil, or_false] at hmem
  rcases hmem with hmem | hmem | hmem
  · cases hmem
  · rcases mem_of_mem_body hmem with hspace | ⟨-, hne⟩
    · cases hspace
    · exact hne rfl
  · cases hmem

/-- The closing mark does not begin earlier than where it is written: the marks in the texts are split,
and blanks keep the texts apart from the marks of the comment. -/
theorem closer_not_within_inner (comments : String) : ¬closer <:+: inner comments ++ ['*'] := by
  intro hwithin
  have hbody : closer <:+: body comments ++ [' ', '*'] :=
    infix_of_infix_cons (c := ' ') (by decide) (by decide) (by simpa [inner] using hwithin)
  -- from the other end the star and the blank are no part of the mark either
  have hreverse : closer.reverse <:+: '*' :: ' ' :: (body comments).reverse := by
    have hreverse := List.reverse_infix.2 hbody
    simpa using hreverse
  have hne : closer.reverse ≠ [] := by decide
  have hinside := infix_of_infix_cons (by decide) hne (infix_of_infix_cons (by decide) hne hreverse)
  exact closer_not_within_splitClosers _ (List.reverse_infix.1 hinside)

/-- The first closing mark is the one behind the texts. -/
theorem length_inner_le {comments : String} {tail front back : List Char}
    (heq : inner comments ++ '*' :: '/' :: tail = front ++ '*' :: '/' :: back) :
    (inner comments).length ≤ front.length := by
  by_contra hshort
  -- a mark that begins earlier lies in front of the last slash
  have hmark : front ++ closer <+: front ++ '*' :: '/' :: back := ⟨back, by simp [closer]⟩
  have hcomments : inner comments ++ ['*'] <+: front ++ '*' :: '/' :: back :=
    ⟨'/' :: tail, by rw [← heq]; simp⟩
  have hwithin : front ++ closer <+: inner comments ++ ['*'] := by
    refine List.prefix_of_prefix_length_le hmark hcomments ?_
    simp only [List.length_append, closer, List.length_cons, List.length_nil]
    omega
  have hends : closer <:+: front ++ closer := ⟨front, [], List.append_nil _⟩
  exact closer_not_within_inner comments (hends.trans hwithin.isInfix)

/-- C reads a blank for the comment, the blank behind it, and the value. -/
theorem reads_beforeValue (comments value : String) :
    Reader.reads .code (joinLines (beforeValue comments value).toList) =
      [' ', ' '] ++ Reader.reads .code (joinLines value.toList) := by
  have hline : '\n' ∉ '/' :: '*' :: (inner comments ++ ['*', '/', ' ']) := by
    simp [newline_not_mem_inner]
  have hlast : ('/' :: '*' :: (inner comments ++ ['*', '/', ' '])).getLast? ≠ some '\\' := by
    simp [List.getLast?_cons]
  have hsplit : (beforeValue comments value).toList =
      '/' :: '*' :: (inner comments ++ ['*', '/', ' ']) ++ value.toList := by
    rw [toList_beforeValue]
    simp
  have hjoined : joinLines (beforeValue comments value).toList =
      '/' :: '*' :: (inner comments ++ '*' :: '/' :: ' ' :: joinLines value.toList) := by
    rw [hsplit, joinLines_append hlast, joinLines_of_not_mem hline]
    simp
  have hopen : ¬closer <:+: inner comments := fun hwithin =>
    closer_not_within_inner comments (hwithin.trans (List.prefix_append _ _).isInfix)
  rw [hjoined, Reader.reads_blockComment hopen]
  rfl

/-- A value behind a comment is one block comment, a blank and the value, whatever the comment tells: the
first closing mark behind the opening one is the one in front of the value, no line feed comes before the
value, and C reads blanks and then what it reads in the value. -/
theorem beforeValue_isOneComment (comments value : String) :
    ∃ inner, (beforeValue comments value).toList =
        '/' :: '*' :: (inner ++ '*' :: '/' :: ' ' :: value.toList) ∧
      (∀ front back, inner ++ '*' :: '/' :: ' ' :: value.toList = front ++ '*' :: '/' :: back →
        inner.length ≤ front.length) ∧
      '\n' ∉ inner ∧
      Reader.reads .code (joinLines (beforeValue comments value).toList) =
        [' ', ' '] ++ Reader.reads .code (joinLines value.toList) :=
  ⟨inner comments, toList_beforeValue comments value, fun _ _ => length_inner_le,
    newline_not_mem_inner comments, reads_beforeValue comments value⟩

end Comment

end BlockCompiler
