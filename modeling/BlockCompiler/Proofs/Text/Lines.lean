import BlockCompiler.Text.Lines

set_option autoImplicit false

/-! # Closed texts

A text is closed if it is empty or ends with a line feed. Closed texts can be put one behind the
other without their lines running together, and moving a text in keeps it closed. -/

namespace BlockCompiler.Text

/-- Statements end with their line, so that what comes next starts a line of its own. -/
def IsClosed (text : String) : Prop := text = "" ∨ endsLine text = true

theorem isClosed_empty : IsClosed "" := .inl rfl

theorem endsLine_append {text : String} (rest : String) (h : endsLine text = true) :
    endsLine (rest ++ text) = true := by
  unfold endsLine at *
  rw [String.toList_append, List.getLast?_append, eq_of_beq h]
  rfl

theorem isClosed_newline (text : String) : IsClosed (text ++ "\n") :=
  .inr (endsLine_append text rfl)

/-- A text is closed if its end is. -/
theorem IsClosed.of_end {text : String} (rest : String) (h : endsLine text = true) :
    IsClosed (rest ++ text) :=
  .inr (endsLine_append rest h)

theorem IsClosed.append {text rest : String} (h : IsClosed text) (hrest : IsClosed rest) :
    IsClosed (text ++ rest) := by
  rcases hrest with rfl | hrest
  · rwa [String.append_empty]
  · exact .inr (endsLine_append text hrest)

/-- A text among joined ones stands at the start or behind a separator. -/
theorem exists_intercalate_eq (separator text : String) (before after : List String) :
    ∃ front back, separator.intercalate (before ++ text :: after) = front ++ text ++ back ∧
      (front = "" ∨ ∃ lead, front = lead ++ separator) := by
  have hafter : ∃ back, separator.intercalate (text :: after) = text ++ back := by
    cases after with
    | nil => exact ⟨"", by rw [String.intercalate_singleton, String.append_empty]⟩
    | cons next after =>
      refine ⟨separator ++ separator.intercalate (next :: after), ?_⟩
      rw [String.intercalate_cons_of_ne_nil (List.cons_ne_nil _ _), String.append_assoc]
  obtain ⟨back, hback⟩ := hafter
  cases before with
  | nil => exact ⟨"", back, by rw [List.nil_append, hback, String.empty_append], .inl rfl⟩
  | cons first before =>
    refine ⟨separator.intercalate (first :: before) ++ separator, back, ?_, .inr ⟨_, rfl⟩⟩
    rw [String.intercalate_append_of_ne_nil (List.cons_ne_nil _ _) (List.cons_ne_nil _ _), hback,
      ← String.append_assoc]

/-! ## Indenting -/

/-- Moving a line in leaves its end alone. -/
theorem getLast?_indentLine (lead line : List Char) :
    (indentLine lead line).getLast? = line.getLast? := by
  unfold indentLine
  split
  · rfl
  · next hblank =>
    cases line with
    | nil => exact absurd rfl hblank
    | cons c cs => rw [List.getLast?_append, List.getLast?_cons, Option.some_or]

theorem getLast?_flatMap_indentLine (lead : List Char) (ls : List (List Char)) :
    (ls.flatMap (indentLine lead)).getLast? = ls.flatten.getLast? := by
  induction ls with
  | nil => rfl
  | cons line ls ih =>
    rw [List.flatMap_cons, List.flatten_cons, List.getLast?_append, List.getLast?_append, ih,
      getLast?_indentLine]

theorem endsLine_indent (text lead : String) : endsLine (indent text lead) = endsLine text := by
  unfold endsLine indent
  rw [String.toList_ofList, getLast?_flatMap_indentLine, flatten_lines]

theorem IsClosed.indent {text : String} (h : IsClosed text) (lead : String) :
    IsClosed (Text.indent text lead) := by
  rcases h with rfl | h
  · exact isClosed_empty
  · exact .inr ((endsLine_indent text lead).trans h)

/-! ## Lines with a given start -/

/-- The characters end with a line feed if there are any. -/
def EndsLine (cs : List Char) : Prop := cs = [] ∨ cs.getLast? = some '\n'

theorem IsClosed.endsLine {text : String} (h : IsClosed text) : EndsLine text.toList := by
  rcases h with rfl | h
  · exact .inl rfl
  · exact .inr (eq_of_beq h)

theorem EndsLine.append {cs ds : List Char} (hcs : EndsLine cs) (hds : EndsLine ds) :
    EndsLine (cs ++ ds) := by
  rcases hds with rfl | hds
  · rwa [List.append_nil]
  · exact .inr (by rw [List.getLast?_append, hds]; rfl)

/-- Whole lines are cut off in front of the rest. -/
theorem lines_append {cs : List Char} (h : EndsLine cs) (ds : List Char) :
    lines (cs ++ ds) = lines cs ++ lines ds := by
  induction cs with
  | nil => rfl
  | cons c cs ih =>
    by_cases hc : c = '\n'
    · have hcs : EndsLine cs := by
        rcases h with h | h
        · cases h
        · cases cs with
          | nil => exact .inl rfl
          | cons d cs => exact .inr (by rwa [List.getLast?_cons_cons] at h)
      simp only [List.cons_append, lines, if_pos hc, ih hcs]
    · have hcs : cs ≠ [] ∧ EndsLine cs := by
        rcases h with h | h
        · cases h
        · cases cs with
          | nil => exact absurd (Option.some_inj.1 h) hc
          | cons d cs => exact ⟨List.cons_ne_nil d cs, .inr (by rwa [List.getLast?_cons_cons] at h)⟩
      simp only [List.cons_append, lines, if_neg hc, ih hcs.2]
      -- `cs` is not empty, so its first line goes on with `c`
      cases hls : lines cs with
      | nil =>
        have hnil := flatten_lines cs
        rw [hls] at hnil
        exact absurd hnil.symm hcs.1
      | cons line ls => rfl

/-- The first line of a text, and the lines behind it. -/
theorem lines_eq_cons {cs : List Char} (h : cs ≠ []) :
    ∃ line rest, cs = line ++ rest ∧ lines cs = line :: lines rest ∧ line ≠ [] ∧
      (rest = [] ∨ line.getLast? = some '\n') := by
  induction cs with
  | nil => exact absurd rfl h
  | cons c cs ih =>
    by_cases hc : c = '\n'
    · subst hc
      exact ⟨['\n'], cs, rfl, if_pos rfl, List.cons_ne_nil _ _, .inr rfl⟩
    · cases cs with
      | nil => exact ⟨[c], [], rfl, if_neg hc, List.cons_ne_nil _ _, .inl rfl⟩
      | cons d cs =>
        obtain ⟨line, rest, hcs, hlines, hne, hend⟩ := ih (List.cons_ne_nil d cs)
        refine ⟨c :: line, rest, congrArg (c :: ·) hcs, ?_, List.cons_ne_nil _ _, ?_⟩
        · rw [lines, if_neg hc, hlines]
        · refine hend.imp_right fun hend => ?_
          rw [List.getLast?_cons, hend, Option.getD_some]

/-- A line goes on until a line feed comes. -/
theorem lines_of_start {start : List Char} (hstart : start ≠ []) (h : '\n' ∉ start)
    (rest : List Char) : ∃ line ls, lines (start ++ rest) = (start ++ line) :: ls := by
  induction start with
  | nil => exact absurd rfl hstart
  | cons c cs ih =>
    have hc : c ≠ '\n' := fun hc => h (hc ▸ List.mem_cons_self)
    cases cs with
    | nil =>
      simp only [List.cons_append, List.nil_append, lines, if_neg hc]
      cases lines rest with
      | nil => exact ⟨[], [], rfl⟩
      | cons line ls => exact ⟨line, ls, rfl⟩
    | cons d cs =>
      obtain ⟨line, ls, hlines⟩ := ih (List.cons_ne_nil d cs) fun hmem =>
        h (List.mem_cons_of_mem c hmem)
      refine ⟨line, ls, ?_⟩
      rw [List.cons_append, lines, if_neg hc, hlines]
      rfl

/-- Some line of a text starts in a given way behind spaces. -/
def HasLine (start text : String) : Prop :=
  ∃ before lead rest, text.toList = before ++ (lead ++ start.toList ++ rest) ∧ EndsLine before ∧
    ∀ c ∈ lead, c = ' '

variable {start text : String}

theorem HasLine.of_start (rest : String) : HasLine start (start ++ rest) :=
  ⟨[], [], rest.toList, by simp, .inl rfl, nofun⟩

theorem HasLine.append_right (h : HasLine start text) (rest : String) :
    HasLine start (text ++ rest) := by
  obtain ⟨before, lead, rest', htext, hbefore, hlead⟩ := h
  refine ⟨before, lead, rest' ++ rest.toList, ?_, hbefore, hlead⟩
  rw [String.toList_append, htext]
  simp only [List.append_assoc]

theorem HasLine.append_left (h : HasLine start text) {front : String} (hfront : IsClosed front) :
    HasLine start (front ++ text) := by
  obtain ⟨before, lead, rest, htext, hbefore, hlead⟩ := h
  refine ⟨front.toList ++ before, lead, rest, ?_, hfront.endsLine.append hbefore, hlead⟩
  rw [String.toList_append, htext]
  simp only [List.append_assoc]

/-- Moving a text in moves in a line that is found in it. -/
theorem hasLine_indent {before lead' rest tail : List Char} {ls : List (List Char)} {lead : String}
    (htext : text.toList = before ++ (lead' ++ start.toList ++ rest)) (hbefore : EndsLine before)
    (hlines : lines (lead' ++ start.toList ++ rest) = (lead' ++ start.toList ++ tail) :: ls)
    (hvisible : allBlank start.toList = false) (hlead : ∀ c ∈ lead.toList, c = ' ')
    (hlead' : ∀ c ∈ lead', c = ' ') : HasLine start (Text.indent text lead) := by
  have hmoved : indentLine lead.toList (lead' ++ start.toList ++ tail) =
      lead.toList ++ (lead' ++ start.toList ++ tail) := by
    have hblank : allBlank (lead' ++ start.toList ++ tail) = false := by
      unfold allBlank at hvisible ⊢
      simp only [List.all_append, hvisible, Bool.and_false, Bool.false_and]
    rw [indentLine, hblank, if_neg Bool.false_ne_true]
  refine ⟨(lines before).flatMap (indentLine lead.toList), lead.toList ++ lead',
    tail ++ ls.flatMap (indentLine lead.toList), ?_, ?_, fun c hc => ?_⟩
  · rw [Text.indent, String.toList_ofList, htext, lines_append hbefore, hlines, List.flatMap_append,
      List.flatMap_cons, hmoved]
    simp only [List.append_assoc]
  · rcases hbefore with rfl | hbefore
    · exact .inl rfl
    · refine .inr ?_
      rw [getLast?_flatMap_indentLine, flatten_lines, hbefore]
  · rcases List.mem_append.1 hc with hc | hc
    · exact hlead c hc
    · exact hlead' c hc

theorem not_mem_of_spaces {lead cs : List Char} (hlead : ∀ c ∈ lead, c = ' ') (h : '\n' ∉ cs) :
    '\n' ∉ lead ++ cs := by
  intro hmem
  rcases List.mem_append.1 hmem with hmem | hmem
  · exact absurd (hlead _ hmem) (by decide)
  · exact h hmem

/-- Moving a text in moves its lines in. -/
theorem HasLine.indent (h : HasLine start text) {lead : String}
    (hspaces : ∀ c ∈ lead.toList, c = ' ') (hvisible : allBlank start.toList = false)
    (hline : '\n' ∉ start.toList) : HasLine start (Text.indent text lead) := by
  obtain ⟨before, lead', rest, htext, hbefore, hlead'⟩ := h
  have hne : lead' ++ start.toList ≠ [] := by
    intro hnil
    rw [(List.append_eq_nil_iff.1 hnil).2] at hvisible
    cases hvisible
  obtain ⟨tail, ls, hlines⟩ := lines_of_start hne (not_mem_of_spaces hlead' hline) rest
  exact hasLine_indent htext hbefore hlines hvisible hspaces hlead'

/-- What ends with the one line feed in it is a line. -/
theorem lines_concat {cs : List Char} (h : '\n' ∉ cs) : lines (cs ++ ['\n']) = [cs ++ ['\n']] := by
  induction cs with
  | nil => rfl
  | cons c cs ih =>
    have hc : c ≠ '\n' := fun hc => h (hc ▸ List.mem_cons_self)
    rw [List.cons_append, lines, if_neg hc, ih fun hmem => h (List.mem_cons_of_mem c hmem)]

/-- Moving a text in moves its lines in up to their ends. -/
theorem HasLine.indent_line {line : String} (h : HasLine (line ++ "\n") text) {lead : String}
    (hspaces : ∀ c ∈ lead.toList, c = ' ') (hvisible : allBlank line.toList = false)
    (hline : '\n' ∉ line.toList) : HasLine (line ++ "\n") (Text.indent text lead) := by
  obtain ⟨before, lead', rest, htext, hbefore, hlead'⟩ := h
  have hchars : lead' ++ (line ++ "\n").toList = lead' ++ line.toList ++ ['\n'] := by simp
  have hlines : lines (lead' ++ (line ++ "\n").toList ++ rest) =
      (lead' ++ (line ++ "\n").toList ++ []) :: lines rest := by
    rw [hchars, lines_append (.inr (by simp)), lines_concat (not_mem_of_spaces hlead' hline),
      List.append_nil]
    rfl
  refine hasLine_indent htext hbefore hlines ?_ hspaces hlead'
  unfold allBlank at hvisible ⊢
  rw [String.toList_append, List.all_append, hvisible, Bool.false_and]

end BlockCompiler.Text
