import BlockCompiler.Proofs.Text.CommentLines

set_option autoImplicit false

/-! # Moving texts in

A text is moved in line by line, and every line stays a line of its own. So what is moved in twice is
moved in by both leads at once, whole lines are moved in apart from what follows them, and taking the
lead off again gives the text back. -/

namespace BlockCompiler.Text

/-! ## Lines -/

/-- A line that holds something still does when it is moved in. -/
theorem allBlank_indentLine (lead line : List Char) :
    allBlank (indentLine lead line) = allBlank line := by
  by_cases hblank : allBlank line = true
  · rw [indentLine, if_pos hblank]
  · have hvisible : allBlank (lead ++ line) = false := by
      rw [allBlank, List.all_append, ← allBlank, ← allBlank, Bool.eq_false_iff.2 hblank,
        Bool.and_false]
    rw [indentLine, if_neg hblank, hvisible, Bool.eq_false_iff.2 hblank]

/-- The second lead goes in front of the first. -/
theorem indentLine_indentLine (lead further line : List Char) :
    indentLine further (indentLine lead line) = indentLine (further ++ lead) line := by
  by_cases hblank : allBlank line = true
  · simp only [indentLine, if_pos hblank]
  · rw [indentLine, allBlank_indentLine, if_neg hblank, indentLine, if_neg hblank, indentLine,
      if_neg hblank, List.append_assoc]

/-- Moving a line in adds characters in front of it only. -/
theorem exists_indentLine_eq (lead line : List Char) :
    ∃ front, (front = [] ∨ front = lead) ∧ ∀ rest, allBlank rest = true →
      indentLine lead (line ++ rest) = front ++ line ++ rest := by
  refine ⟨if allBlank line then [] else lead, ?_, fun rest hrest => ?_⟩
  · split
    · exact .inl rfl
    · exact .inr rfl
  · have hblank : allBlank (line ++ rest) = allBlank line := by
      rw [allBlank, List.all_append, ← allBlank, ← allBlank, hrest, Bool.and_true]
    rw [indentLine, hblank]
    split
    · rfl
    · rw [List.append_assoc]

/-- A text that is moved in has the lines of the text, each of them moved in. -/
theorem lines_flatMap_indentLine {lead : List Char} (hlead : '\n' ∉ lead) (cs : List Char) :
    lines ((lines cs).flatMap (indentLine lead)) = (lines cs).map (indentLine lead) := by
  have hmoved : ∀ {front line : List Char}, (front = [] ∨ front = lead) → '\n' ∉ line →
      '\n' ∉ front ++ line := by
    rintro front line (rfl | rfl) hline hmem
    · exact hline hmem
    · exact (List.mem_append.1 hmem).elim hlead hline
  induction cs using lines_induction with
  | last line hline =>
    by_cases hne : line = []
    · subst hne
      rfl
    obtain ⟨front, hfront, heq⟩ := exists_indentLine_eq lead line
    have hindent := heq [] rfl
    simp only [List.append_nil] at hindent
    rw [lines_of_not_mem hne hline, List.flatMap_singleton, List.map_singleton, hindent]
    exact lines_of_not_mem (List.append_ne_nil_of_right_ne_nil _ hne) (hmoved hfront hline)
  | more line rest hline ih =>
    obtain ⟨front, hfront, heq⟩ := exists_indentLine_eq lead line
    have hend : EndsLine (front ++ line ++ ['\n']) := .inr List.getLast?_concat
    rw [lines_append_newline hline, List.flatMap_cons, List.map_cons, heq ['\n'] rfl,
      lines_append hend, ih, lines_concat (hmoved hfront hline), List.singleton_append]

theorem lines_indent {lead : String} (hlead : '\n' ∉ lead.toList) (text : String) :
    lines (indent text lead).toList = (lines text.toList).map (indentLine lead.toList) := by
  rw [indent, String.toList_ofList, lines_flatMap_indentLine hlead]

/-! ## Texts -/

/-- Whole lines are moved in apart from what follows them. -/
theorem indent_append {front : String} (h : IsClosed front) (back lead : String) :
    indent (front ++ back) lead = indent front lead ++ indent back lead := by
  rw [indent, String.toList_append, lines_append h.endsLine, List.flatMap_append, String.ofList_append]
  rfl

theorem indent_indent {lead : String} (hlead : '\n' ∉ lead.toList) (text further : String) :
    indent (indent text lead) further = indent text (further ++ lead) := by
  have hline : indentLine further.toList ∘ indentLine lead.toList =
      indentLine (further ++ lead).toList := by
    funext line
    rw [String.toList_append]
    exact indentLine_indentLine lead.toList further.toList line
  rw [indent, lines_indent hlead, List.flatMap_map, ← Function.comp_def, hline]
  rfl

/-- Moving a text in adds no line feed. -/
theorem count_newline_indent {lead : String} (hlead : '\n' ∉ lead.toList) (text : String) :
    (indent text lead).toList.count '\n' = text.toList.count '\n' := by
  have hline : ∀ line, (indentLine lead.toList line).count '\n' = line.count '\n' := by
    intro line
    unfold indentLine
    split
    · rfl
    · rw [List.count_append, List.count_eq_zero_of_not_mem hlead, Nat.zero_add]
  calc (indent text lead).toList.count '\n'
      = ((lines text.toList).map (List.count '\n')).sum := by
        rw [indent, String.toList_ofList, List.count_flatMap]
        exact congrArg List.sum (List.map_congr_left fun line _ => hline line)
    _ = text.toList.count '\n' := by rw [← List.count_flatten, flatten_lines]

/-! ## Moving texts out -/

/-- A line without the lead in front of it; a blank line stays as it is. -/
def outdentLine (lead line : List Char) : List Char :=
  if allBlank line then line else line.drop lead.length

/-- Every line of `text` that is not blank without the lead in front of it. -/
def outdent (text lead : String) : String :=
  String.ofList ((lines text.toList).flatMap (outdentLine lead.toList))

theorem outdentLine_indentLine (lead line : List Char) :
    outdentLine lead (indentLine lead line) = line := by
  rw [outdentLine, allBlank_indentLine]
  split
  · next hblank => rw [indentLine, if_pos hblank]
  · next hvisible => rw [indentLine, if_neg hvisible, List.drop_left]

theorem outdent_indent {lead : String} (hlead : '\n' ∉ lead.toList) (text : String) :
    outdent (indent text lead) lead = text := by
  have hline : outdentLine lead.toList ∘ indentLine lead.toList = id :=
    funext (outdentLine_indentLine lead.toList)
  rw [outdent, lines_indent hlead, List.flatMap_map, ← Function.comp_def, hline, List.flatMap_id,
    flatten_lines, String.ofList_toList]

/-- Moving in composes: over whole lines in front of others, and over leads. It moves in every line that
is not blank and leaves the others and all line feeds as they are, so moving out undoes it. -/
theorem indent_composes {front lead : String} (hfront : IsClosed front) (hlead : '\n' ∉ lead.toList)
    (back text further : String) :
    indent (front ++ back) lead = indent front lead ++ indent back lead ∧
      indent (indent text lead) further = indent text (further ++ lead) ∧
      (indent text lead).toList.count '\n' = text.toList.count '\n' ∧
      (lines (indent text lead).toList = (lines text.toList).map fun line =>
        if allBlank line then line else lead.toList ++ line) ∧
      outdent (indent text lead) lead = text :=
  ⟨indent_append hfront back lead, indent_indent hlead text further,
    count_newline_indent hlead text, lines_indent hlead text, outdent_indent hlead text⟩

/-- A blank line and a last line without a line feed, moved in twice. -/
theorem indent_composes_nested :
    IsClosed "if (x) \x7b\n" ∧ '\n' ∉ "  ".toList ∧
      indent ("if (x) \x7b\n" ++ "\u00a0\n\x7d") "  " = "  if (x) \x7b\n\u00a0\n  \x7d" ∧
      indent (indent "f();\n\n  g();" "  ") "\t" = "\t  f();\n\n\t    g();" := by
  have hclosed : IsClosed "if (x) \x7b\n" := .inr (by decide)
  have hlead : '\n' ∉ "  ".toList := by decide
  obtain ⟨happend, htwice, -⟩ :=
    indent_composes hclosed hlead "\u00a0\n\x7d" "f();\n\n  g();" "\t"
  refine ⟨hclosed, hlead, happend.trans ?_, htwice.trans ?_⟩ <;> decide +kernel

end BlockCompiler.Text
