import BlockCompiler.Proofs.Text.Reading

set_option autoImplicit false

/-! # Comment lines

A line comment ends with its line, unless a backslash joins the next line to it. So lines that are all
comments hold no code, and touch nothing behind them if no backslash stands at the end of the last one;
a comment with a backslash at its end takes the next line with it. -/

namespace BlockCompiler.Text

/-! ## Lines and line feeds -/

theorem lines_append_newline {line : List Char} (h : '\n' ∉ line) (rest : List Char) :
    lines (line ++ '\n' :: rest) = (line ++ ['\n']) :: lines rest := by
  have hend : EndsLine (line ++ ['\n']) := .inr List.getLast?_concat
  have hsplit : line ++ '\n' :: rest = line ++ ['\n'] ++ rest := by simp
  rw [hsplit, lines_append hend, lines_concat h]
  rfl

theorem lines_of_not_mem {line : List Char} (hne : line ≠ []) (h : '\n' ∉ line) :
    lines line = [line] := by
  induction line with
  | nil => exact absurd rfl hne
  | cons c cs ih =>
    have hc : c ≠ '\n' := fun hc => h (hc ▸ List.mem_cons_self)
    cases cs with
    | nil => rw [lines, if_neg hc]; rfl
    | cons d cs =>
      rw [lines, if_neg hc, ih (List.cons_ne_nil d cs) fun hmem => h (List.mem_cons_of_mem c hmem)]

/-- A line feed of two texts stands in the second or in the first. -/
theorem newline_append {cs ds front back : List Char} (heq : cs ++ ds = front ++ '\n' :: back) :
    (∃ more, front = cs ++ more ∧ ds = more ++ '\n' :: back) ∨
      ∃ more, cs = front ++ '\n' :: more ∧ back = more ++ ds := by
  rcases List.append_eq_append_iff.1 heq with ⟨more, hfront, hds⟩ | ⟨more, rfl, hmore⟩
  · exact .inl ⟨more, hfront, hds⟩
  · cases more with
    | nil => exact .inl ⟨[], by simp, hmore.symm⟩
    | cons c more =>
      obtain ⟨rfl, rfl⟩ := List.cons.inj hmore
      exact .inr ⟨more, rfl, rfl⟩

/-- A line feed behind a line is the one that ends the line, or stands behind that. -/
theorem newline_split {line rest front back : List Char} (h : '\n' ∉ line)
    (heq : line ++ '\n' :: rest = front ++ '\n' :: back) :
    (front = line ∧ back = rest) ∨ ∃ between, front = line ++ '\n' :: between ∧
      rest = between ++ '\n' :: back := by
  rcases newline_append heq with ⟨more, rfl, hmore⟩ | ⟨more, rfl, -⟩
  · cases more with
    | nil => exact .inl ⟨List.append_nil line, (List.cons.inj hmore).2.symm⟩
    | cons c cs =>
      obtain ⟨rfl, hrest⟩ := List.cons.inj hmore
      exact .inr ⟨cs, rfl, hrest⟩
  · exact absurd (List.mem_append_right front List.mem_cons_self) h

/-- A text is a last line, or a line in front of another text. -/
theorem lines_induction {P : List Char → Prop} (last : ∀ line, '\n' ∉ line → P line)
    (more : ∀ line rest, '\n' ∉ line → P rest → P (line ++ '\n' :: rest)) (cs : List Char) : P cs := by
  have hfront : ∀ line, '\n' ∉ line → P (line ++ cs) := by
    induction cs with
    | nil =>
      intro line hline
      rw [List.append_nil]
      exact last line hline
    | cons c cs ih =>
      intro line hline
      by_cases hc : c = '\n'
      · subst hc
        exact more line cs hline (ih [] nofun)
      · have hlonger := ih (line ++ [c]) (by simp [hline, Ne.symm hc])
        rwa [List.append_assoc] at hlonger
  exact hfront [] nofun

/-- A start without a line feed is that of a line if it is that of the text. -/
theorem prefix_line_iff {start line : List Char} (h : '\n' ∉ start) (rest : List Char) :
    start <+: line ++ '\n' :: rest ↔ start <+: line := by
  refine ⟨fun hstart => ?_, fun hstart => hstart.trans (List.prefix_append _ _)⟩
  obtain ⟨tail, heq⟩ := hstart
  rcases newline_append heq with ⟨more, rfl, -⟩ | ⟨more, rfl, -⟩
  · exact List.prefix_append _ _
  · exact absurd (List.mem_append_right line List.mem_cons_self) h

/-- All lines start in a given way if the text does, and if what stands behind each line feed does. -/
theorem forall_mem_lines_iff {start : List Char} (h : '\n' ∉ start) (cs : List Char) :
    (∀ line ∈ lines cs, start <+: line) ↔ (cs = [] ∨ start <+: cs) ∧
      ∀ front back, cs = front ++ '\n' :: back → back = [] ∨ start <+: back := by
  induction cs using lines_induction with
  | last line hline =>
    have hnone : ∀ front back, line ≠ front ++ '\n' :: back := by
      rintro front back rfl
      exact hline (List.mem_append_right front List.mem_cons_self)
    by_cases hempty : line = []
    · subst hempty
      simp [lines]
    · rw [lines_of_not_mem hempty hline]
      simp [hempty, hnone]
  | more line rest hline ih =>
    rw [lines_append_newline hline, List.forall_mem_cons, ih, prefix_line_iff h,
      prefix_line_iff h]
    have hne : line ++ '\n' :: rest ≠ [] := by simp
    constructor
    · rintro ⟨hfirst, hrest, hothers⟩
      refine ⟨.inr hfirst, fun front back heq => ?_⟩
      rcases newline_split hline heq with ⟨rfl, rfl⟩ | ⟨between, rfl, hbetween⟩
      · exact hrest
      · exact hothers between back hbetween
    · rintro ⟨hfirst, hothers⟩
      refine ⟨hfirst.resolve_left hne, hothers line rest rfl, fun front back heq => ?_⟩
      exact hothers (line ++ '\n' :: front) back (by simp [heq])

/-! ## Comment lines -/

theorem after_comment {words : List Char} (h : '\n' ∉ words) :
    Reader.after .code ('/' :: '/' :: words) = .line :=
  Reader.after_line h

theorem codeOf_comment {words : List Char} (h : '\n' ∉ words) :
    Reader.codeOf .code ('/' :: '/' :: words) = [' '] := by
  show [' '] ++ Reader.codeOf .line words = [' ']
  rw [Reader.codeOf_line h, List.append_nil]

/-- Every line of a text is a comment. -/
def IsComments (cs : List Char) : Prop := ∀ line ∈ lines cs, ['/', '/'] <+: line

/-- A line that starts with slashes leaves C inside of a comment, and is no code, also where a comment
goes on in front of it. -/
theorem reads_slashes {r : Reader} (hr : r = .code ∨ r = .line) {line : List Char}
    (hslashes : ['/', '/'] <+: line) (hline : '\n' ∉ line) :
    r.after line = .line ∧ (r.codeOf line).all isSpacing = true := by
  rcases hr with rfl | rfl
  · obtain ⟨words, rfl⟩ := hslashes
    have hwords : '\n' ∉ words := fun hmem => hline (List.mem_append_right _ hmem)
    refine ⟨after_comment hwords, ?_⟩
    rw [List.cons_append, List.cons_append, List.nil_append, codeOf_comment hwords]
    rfl
  · refine ⟨Reader.after_line hline, ?_⟩
    rw [Reader.codeOf_line hline]
    rfl

/-- What stands behind a line ends as the whole text does. -/
theorem EndsTight.of_append {front rest : List Char} (h : EndsTight (front ++ rest)) (hne : rest ≠ []) :
    EndsTight rest := by
  obtain ⟨before, heq, hlast⟩ := h
  obtain ⟨cs, c, rfl⟩ : ∃ cs c, rest = cs ++ [c] :=
    ⟨_, _, (List.dropLast_concat_getLast hne).symm⟩
  rw [← List.append_assoc] at heq
  obtain ⟨rfl, hc⟩ := List.append_inj' heq rfl
  refine ⟨cs, by rw [hc], fun hcs => hlast ?_⟩
  rw [List.getLast?_append, hcs]
  rfl

/-- Comments that no backslash ends leave blanks and a line feed behind, also where a comment goes on in
front of them. -/
theorem IsComments.reads {cs : List Char} (h : IsComments cs) (hends : EndsTight cs) {r : Reader}
    (hr : r = .code ∨ r = .line) :
    r.after (joinLines cs) = .code ∧
      ∃ blanks, r.codeOf (joinLines cs) = blanks ++ ['\n'] ∧ blanks.all isSpacing = true := by
  induction cs using lines_induction generalizing r with
  | last line hline =>
    obtain ⟨front, rfl, -⟩ := hends
    exact absurd (List.mem_append_right front List.mem_cons_self) hline
  | more line rest hline ih =>
    rw [IsComments, lines_append_newline hline, List.forall_mem_cons, prefix_line_iff (by decide)] at h
    obtain ⟨hslashes, hrest⟩ := h
    by_cases hjoined : line.getLast? = some '\\'
    · -- the backslash joins the next line to the comment
      obtain ⟨front, rfl⟩ := List.getLast?_eq_some_iff.1 hjoined
      have hfront : '\n' ∉ front := fun hmem => hline (List.mem_append_left _ hmem)
      have hstart : ['/', '/'] <+: front := by
        refine (List.prefix_concat_iff.1 hslashes).resolve_left fun heq => ?_
        have hmem : '\\' ∈ ['/', '/'] := by simp [heq]
        exact absurd hmem (by decide)
      have hne : rest ≠ [] := by
        rintro rfl
        obtain ⟨before, heq, hlast⟩ := hends
        obtain ⟨rfl, -⟩ := List.append_inj' heq rfl
        exact hlast hjoined
      have hbehind : EndsTight rest := by
        have hsplit : front ++ ['\\'] ++ '\n' :: rest = front ++ ['\\', '\n'] ++ rest := by simp
        exact (hsplit ▸ hends).of_append hne
      obtain ⟨hafter, hblank⟩ := reads_slashes hr hstart hfront
      obtain ⟨hend, blanks, hcode, hblanks⟩ := ih hrest hbehind (.inr rfl)
      rw [List.append_assoc, List.cons_append, List.nil_append, joinLines_append_backslash hfront,
        Reader.after_append, Reader.codeOf_append, hafter]
      refine ⟨hend, r.codeOf front ++ blanks, ?_, ?_⟩
      · rw [hcode, List.append_assoc]
      · rw [List.all_append, hblank, hblanks]
        rfl
    · obtain ⟨hafter, hblank⟩ := reads_slashes hr hslashes hline
      have hfeed : joinLines ('\n' :: rest) = '\n' :: joinLines rest := joinLines_cons nofun
      rw [joinLines_append hjoined, joinLines_of_not_mem hline, hfeed, Reader.after_append,
        Reader.codeOf_append, hafter]
      by_cases hne : rest = []
      · subst hne
        exact ⟨rfl, r.codeOf line, rfl, hblank⟩
      · have hbehind : EndsTight rest := by
          have hsplit : line ++ '\n' :: rest = line ++ ['\n'] ++ rest := by simp
          exact (hsplit ▸ hends).of_append hne
        obtain ⟨hend, blanks, hcode, hblanks⟩ := ih hrest hbehind (.inl rfl)
        refine ⟨hend, r.codeOf line ++ '\n' :: blanks, ?_, ?_⟩
        · show r.codeOf line ++ (['\n'] ++ Reader.codeOf .code (joinLines rest)) = _
          rw [hcode]
          simp
        · rw [List.all_append, hblank, List.all_cons, hblanks]
          rfl

theorem IsComments.isComplete {cs : List Char} (h : IsComments cs) (hends : EndsTight cs) :
    IsComplete cs ∧ codeLines cs = [] := by
  obtain ⟨hafter, blanks, hcode, hblanks⟩ := h.reads hends (.inl rfl)
  have hlast : EndsLine cs := by
    obtain ⟨front, rfl, -⟩ := hends
    exact .inr List.getLast?_concat
  refine ⟨⟨hlast, hafter, hcode ▸ .inr List.getLast?_concat⟩, ?_⟩
  have hread : Reader.reads .code (joinLines cs) = blanks ++ ['\n'] := by
    rw [Reader.reads, hafter, hcode]
    exact List.append_nil _
  rw [codeLines, hread, List.filter_eq_nil_iff]
  intro line hline
  have hchars : ∀ c ∈ line, isSpacing c = true := by
    intro c hc
    have hmem : c ∈ blanks ++ ['\n'] := by
      rw [← flatten_lines (blanks ++ ['\n'])]
      exact List.mem_flatten_of_mem hline hc
    rcases List.mem_append.1 hmem with hmem | hmem
    · exact List.all_eq_true.1 hblanks c hmem
    · rw [List.mem_singleton.1 hmem]
      rfl
  simpa using hchars

section Comment

variable {words : List Char} (hline : '\n' ∉ words)

include hline

/-- What is joined to a comment line in front of whole lines is no code. -/
theorem codeLines_of_joinLines {cs ds : List Char}
    (h : joinLines cs = ('/' :: '/' :: words) ++ '\n' :: joinLines ds) :
    codeLines cs = codeLines ds := by
  have hread : Reader.reads .code (joinLines cs) = [' ', '\n'] ++ Reader.reads .code (joinLines ds) := by
    rw [h, Reader.reads_append, after_comment hline, codeOf_comment hline]
    rfl
  rw [codeLines, hread, lines_append (.inr rfl), List.filter_append]
  rfl

/-- A comment line is read to its end unless a backslash stands there. -/
theorem isComplete_comment (hlast : words.getLast? ≠ some '\\') :
    IsComplete ('/' :: '/' :: words ++ ['\n']) ∧
      codeLines ('/' :: '/' :: words ++ ['\n']) = [] := by
  refine IsComments.isComplete ?_ ⟨'/' :: '/' :: words, rfl, ?_⟩
  · have hslashes : '\n' ∉ '/' :: '/' :: words := by simp [hline]
    rw [IsComments, lines_concat hslashes]
    simp
  · cases words with
    | nil => exact fun heq => absurd (Option.some_inj.1 heq) (by decide)
    | cons c cs => simpa using hlast

/-- A comment line with a backslash at its end leaves the comment open. -/
theorem after_comment_backslash :
    Reader.after .code (joinLines ('/' :: '/' :: words ++ ['\\', '\n'])) = .line := by
  have hslashes : '\n' ∉ '/' :: '/' :: words := by simp [hline]
  rw [joinLines_append_backslash hslashes, joinLines, List.append_nil]
  exact after_comment hline

/-- A comment line with a backslash at its end takes the next line with it. -/
theorem codeLines_comment_backslash {next : List Char} (hnext : '\n' ∉ next)
    (hlast : next.getLast? ≠ some '\\') (rest : List Char) :
    codeLines (('/' :: '/' :: words) ++ '\\' :: '\n' :: (next ++ '\n' :: rest)) =
      codeLines rest := by
  have hslashes : '\n' ∉ '/' :: '/' :: words := by simp [hline]
  have hjoined : '\n' ∉ words ++ next := by simp [hline, hnext]
  have hfeed : joinLines ('\n' :: rest) = '\n' :: joinLines rest := joinLines_cons nofun
  refine codeLines_of_joinLines hjoined ?_
  rw [joinLines_append_backslash hslashes, joinLines_append hlast, joinLines_of_not_mem hnext, hfeed]
  simp only [List.cons_append, List.append_assoc]

end Comment

end BlockCompiler.Text
