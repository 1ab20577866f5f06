import BlockCompiler.Proofs.Emission.Nesting
import BlockCompiler.Proofs.Emit.Catalog
import BlockCompiler.Proofs.Text.CommentLines

set_option autoImplicit false

/-! # Comment blocks

The text of a comment block stands on one line, trimmed at its end. It ends with its line unless the last
character that is left is a backslash; then it takes the next line with it. -/

namespace BlockCompiler

open Text

/-! ## The line of a comment -/

theorem Text.trimRight_map {f : Char → Char} (h : ∀ c, isBlank (f c) = isBlank c) (cs : List Char) :
    trimRight (cs.map f) = (trimRight cs).map f := by
  have hblank : isBlank ∘ f = isBlank := funext h
  rw [trimRight, trimRight, ← List.map_reverse, List.dropWhile_map, hblank, List.map_reverse]

namespace Emit

/-- A line break becomes a blank. -/
def unbroken (c : Char) : Char := if c = '\r' || c = '\n' then ' ' else c

theorem isBlank_unbroken (c : Char) : isBlank (unbroken c) = isBlank c := by
  unfold unbroken
  split
  · next h =>
    rcases Bool.or_eq_true_iff.1 h with h | h <;> rw [of_decide_eq_true h] <;> rfl
  · rfl

theorem unbroken_eq_backslash {c : Char} : unbroken c = '\\' ↔ c = '\\' := by
  unfold unbroken
  split
  · next h =>
    rcases Bool.or_eq_true_iff.1 h with h | h <;> rw [of_decide_eq_true h] <;> decide
  · rfl

theorem not_mem_map_unbroken {c : Char} (h : c = '\r' ∨ c = '\n') (cs : List Char) :
    c ∉ cs.map unbroken := by
  intro hmem
  obtain ⟨d, -, hd⟩ := List.mem_map.1 hmem
  unfold unbroken at hd
  split at hd
  · subst hd
    exact absurd h (by decide)
  · next hbreak =>
    subst hd
    exact hbreak (by simpa using h)

variable (p : Project) (b : Block)

/-- The text of a comment block, trimmed at its end. -/
def commentText : List Char := trimRight (p.field b "COMMENT_TEXT").toList

/-- What stands behind the slashes of a comment. -/
def commentWords : List Char := ' ' :: (commentText p b).map unbroken

theorem not_mem_commentWords {c : Char} (h : c = '\r' ∨ c = '\n') : c ∉ commentWords p b := by
  have hspace : c ≠ ' ' := by rcases h with rfl | rfl <;> decide
  simp [commentWords, hspace, not_mem_map_unbroken h]

theorem getLast?_commentWords :
    (commentWords p b).getLast? = some '\\' ↔ (commentText p b).getLast? = some '\\' := by
  unfold commentWords
  rw [List.getLast?_cons, List.getLast?_map]
  cases (commentText p b).getLast? with
  | none => decide
  | some c => simp [unbroken_eq_backslash]

/-- The line of a comment block. -/
def commentLine : List Char := '/' :: '/' :: commentWords p b ++ ['\n']

theorem comment_eq_pure : comment p b = pure (String.ofList (commentLine p b)) := by
  have htext : trimRight ((p.field b "COMMENT_TEXT").toList.map fun c =>
      if c = '\r' || c = '\n' then ' ' else c) = (commentText p b).map unbroken :=
    trimRight_map isBlank_unbroken _
  have hchars : "// " ++ String.ofList ((commentText p b).map unbroken) ++ "\n" =
      String.ofList (commentLine p b) := by
    rw [← String.toList_inj]
    simp [commentLine, commentWords]
  unfold comment
  dsimp only
  rw [htext, hchars]

variable {p b}

theorem recipe_of_comment (hkind : Kind.ofName? b.type = some .comment) (id : BlockId) :
    recipe p id b = pure (.statement (String.ofList (commentLine p b))) := by
  rw [recipe_of_kind hkind]
  show (Emitter.statement (comment p b)).fragment = _
  rw [comment_eq_pure]
  rfl

/-- Behind code that is read to its end, a comment block is no code, unless a backslash ends it. -/
theorem codeLines_commentLine (h : (commentText p b).getLast? ≠ some '\\') {front : List Char}
    (hfront : IsComplete front) (rest : List Char) :
    codeLines (front ++ commentLine p b ++ rest) = codeLines (front ++ rest) := by
  have hline : '\n' ∉ commentWords p b := not_mem_commentWords p b (.inr rfl)
  obtain ⟨hcomplete, hnone⟩ := isComplete_comment hline (mt (getLast?_commentWords p b).1 h)
  rw [List.append_assoc, hfront.codeLines_append, hfront.codeLines_append]
  show codeLines front ++ codeLines (('/' :: '/' :: commentWords p b ++ ['\n']) ++ rest) = _
  rw [hcomplete.codeLines_append, hnone, List.nil_append]

/-- A backslash at the end of a comment block takes the next line with it. -/
theorem codeLines_commentLine_backslash (h : (commentText p b).getLast? = some '\\')
    {front : List Char} (hfront : IsComplete front) {next : List Char} (hnext : '\n' ∉ next)
    (hlast : next.getLast? ≠ some '\\') (rest : List Char) :
    codeLines (front ++ commentLine p b ++ (next ++ '\n' :: rest)) = codeLines (front ++ rest) := by
  obtain ⟨words, hwords⟩ := List.getLast?_eq_some_iff.1 ((getLast?_commentWords p b).2 h)
  have hline : '\n' ∉ words := fun hmem =>
    not_mem_commentWords p b (.inr rfl) (hwords ▸ List.mem_append_left _ hmem)
  have hsplit : commentLine p b ++ (next ++ '\n' :: rest) =
      ('/' :: '/' :: words) ++ '\\' :: '\n' :: (next ++ '\n' :: rest) := by
    rw [commentLine, hwords]
    simp
  rw [List.append_assoc, hfront.codeLines_append, hfront.codeLines_append, hsplit,
    codeLines_comment_backslash hline hnext hlast]

theorem swallows_commentLine :
    Swallows (String.ofList (commentLine p b)) ↔ (commentText p b).getLast? = some '\\' := by
  have hline : '\n' ∉ commentWords p b := not_mem_commentWords p b (.inr rfl)
  constructor
  · intro hswallows
    by_contra h
    refine IsTight.not_swallows (.inr ⟨'/' :: '/' :: commentWords p b, ?_, ?_⟩) hswallows
    · exact String.toList_ofList
    · have hwords := mt (getLast?_commentWords p b).1 h
      simpa [commentWords] using hwords
  · intro h
    obtain ⟨words, hwords⟩ := List.getLast?_eq_some_iff.1 ((getLast?_commentWords p b).2 h)
    have hinner : '\n' ∉ words := fun hmem => hline (hwords ▸ List.mem_append_left _ hmem)
    refine ⟨.code, nofun, ?_⟩
    rw [String.toList_ofList, commentLine, hwords]
    have hsplit : '/' :: '/' :: (words ++ ['\\']) ++ ['\n'] = '/' :: '/' :: words ++ ['\\', '\n'] := by
      simp
    rw [hsplit]
    exact after_comment_backslash hinner

end Emit

/-! ## Comment blocks in a program -/

namespace Project

/-- The code of a comment block is one comment line. C reads what stands around it as if it were absent
exactly if the comment does not end with a backslash, blanks behind it not counted; else the next line is
lost. -/
theorem comment_staysComment {p : Project} {b : Block} (hkind : Kind.ofName? b.type = some .comment)
    (id : BlockId) (s : Emission) :
    ∃ words, '\n' ∉ words ∧ '\r' ∉ words ∧ (p.run (Emit.recipe p id b) s).1 =
        .statement (String.ofList ('/' :: '/' :: words ++ ['\n'])) ∧
      ∀ front, IsComplete front →
        ((∀ rest, codeLines (front ++ ('/' :: '/' :: words ++ ['\n']) ++ rest) =
            codeLines (front ++ rest)) ↔
          (trimRight (p.field b "COMMENT_TEXT").toList).getLast? ≠ some '\\') ∧
        ((trimRight (p.field b "COMMENT_TEXT").toList).getLast? = some '\\' →
          ∀ next rest, '\n' ∉ next → next.getLast? ≠ some '\\' →
            codeLines (front ++ ('/' :: '/' :: words ++ ['\n']) ++ (next ++ '\n' :: rest)) =
              codeLines (front ++ rest)) := by
  refine ⟨Emit.commentWords p b, Emit.not_mem_commentWords p b (.inr rfl),
    Emit.not_mem_commentWords p b (.inl rfl), ?_, fun front hfront => ⟨⟨?_, ?_⟩, ?_⟩⟩
  · rw [Emit.recipe_of_comment hkind]
    rfl
  · intro hsame hlast
    -- the line of a statement that follows is lost
    have hnext : '\n' ∉ [';'] := by decide
    have hlost := Emit.codeLines_commentLine_backslash hlast hfront hnext (by decide) []
    have hstays : codeLines (front ++ [';', '\n']) = codeLines (front ++ []) :=
      (hsame [';', '\n']).symm.trans hlost
    rw [hfront.codeLines_append, hfront.codeLines_append] at hstays
    exact absurd (List.append_cancel_left hstays) (by decide)
  · exact fun h rest => Emit.codeLines_commentLine h hfront rest
  · exact fun h next rest hnext hlast =>
      Emit.codeLines_commentLine_backslash h hfront hnext hlast rest

/-- A comment that ends with a backslash in front of a pause. -/
def noted : Project where
  workspace :=
    { blocks := #[
        { id := "note", type := "comment", fields := ⟨[("COMMENT_TEXT", "C:\\ ")]⟩, next := some 1 },
        { id := "pause", type := "pause" }]
      top := [0]
      index := [0, 1] }

theorem comment_staysComment_noted : ∃ b, noted.workspace.block? 0 = some b ∧
    Kind.ofName? b.type = some .comment ∧
    (noted.run (Emit.chain noted 0) .empty).1 = "// C:\\\npause(500);\n" ∧
    codeLines "// C:\\\npause(500);\n".toList = [] := by
  have hkind : Kind.ofName? noted.workspace.blocks[0].type = some .comment := by decide +kernel
  have hchain : (noted.run (Emit.chain noted 0) .empty).1 = "// C:\\\npause(500);\n" := by
    decide +kernel
  obtain ⟨words, -, -, hcode, hread⟩ := comment_staysComment hkind 0 .empty
  have hline : '/' :: '/' :: words ++ ['\n'] = "// C:\\\n".toList := by
    have hfragment : (noted.run (Emit.recipe noted 0 noted.workspace.blocks[0]) .empty).1 =
        .statement "// C:\\\n" := by decide +kernel
    rw [hcode] at hfragment
    rw [← Fragment.statement.inj hfragment, String.toList_ofList]
  have hlost := (hread [] isComplete_nil).2 (by decide +kernel) "pause(500);".toList [] (by decide)
    (by decide)
  rw [List.nil_append, hline] at hlost
  exact ⟨_, rfl, hkind, hchain, hlost⟩

end Project

end BlockCompiler
