import BlockCompiler.Proofs.Text.Comment
import BlockCompiler.Proofs.Text.Lines

set_option autoImplicit false

/-! # Passages in comments

A passage is a piece of a line that begins and ends with visible characters. It outlives all that is
done to the text around it on the way into a program: lines are moved in, and line comments become one
block comment, in which marks that would close it are split. -/

namespace BlockCompiler

namespace Text

/-- A piece of a line that begins and ends with visible characters, of which neither can be a part of
a mark that closes a comment and reaches beyond the piece. -/
structure IsPassage (cs : List Char) : Prop where
  line : '\n' ∉ cs
  head : ∃ c, cs.head? = some c ∧ isBlank c = false ∧ c ≠ '/'
  last : ∃ c, cs.getLast? = some c ∧ isBlank c = false ∧ c ≠ '*'

theorem IsPassage.ne_nil {part : List Char} (h : IsPassage part) : part ≠ [] := by
  obtain ⟨c, hc, -⟩ := h.head
  rintro rfl
  cases hc

/-- A text that starts with a character which a passage does not start with holds the passage
behind it. -/
theorem infix_of_infix_cons {part cs : List Char} {c : Char} (hc : part.head? ≠ some c)
    (hpart : part ≠ []) (h : part <:+: c :: cs) : part <:+: cs := by
  rcases List.infix_cons_iff.1 h with hprefix | h
  · obtain ⟨rest, hrest⟩ := hprefix
    cases part with
    | nil => exact absurd rfl hpart
    | cons d ds => exact absurd (congrArg some (List.cons.inj hrest).1) hc
  · exact h

/-! ## Blanks -/

theorem infix_trimLeft {part cs : List Char} (hhead : ∃ c, part.head? = some c ∧ isBlank c = false)
    (h : part <:+: cs) : part <:+: trimLeft cs := by
  obtain ⟨d, hd, hvisible⟩ := hhead
  have hpart : part ≠ [] := by rintro rfl; cases hd
  induction cs with
  | nil => exact h
  | cons c cs ih =>
    rw [trimLeft, List.dropWhile_cons]
    split
    · next hblank =>
      refine ih (infix_of_infix_cons ?_ hpart h)
      rintro hc
      obtain rfl : d = c := Option.some_inj.1 (hd.symm.trans hc)
      exact Bool.false_ne_true (hvisible.symm.trans hblank)
    · exact h

theorem IsPassage.infix_trim {part cs : List Char} (hpart : IsPassage part) (h : part <:+: cs) :
    part <:+: trim cs := by
  obtain ⟨c, hhead, hfirst, -⟩ := hpart.head
  obtain ⟨d, hlast, hend, -⟩ := hpart.last
  have hleft := infix_trimLeft ⟨c, hhead, hfirst⟩ h
  -- from the other end the text is trimmed in the same way
  have hright := infix_trimLeft ⟨d, by rwa [List.head?_reverse], hend⟩ (List.reverse_infix.2 hleft)
  exact List.reverse_infix.1 (by rwa [trim, trimRight, List.reverse_reverse])

/-! ## Lines -/

theorem pieces_ne_nil (separator : Char) (cs : List Char) : pieces separator cs ≠ [] := by
  cases cs with
  | nil => exact List.cons_ne_nil _ _
  | cons c cs =>
    rw [pieces]
    split
    · exact List.cons_ne_nil _ _
    · split <;> exact List.cons_ne_nil _ _

/-- A piece goes on until a separator comes. -/
theorem pieces_of_start {separator : Char} {start : List Char} (h : separator ∉ start)
    (rest : List Char) :
    ∃ piece others, pieces separator (start ++ rest) = (start ++ piece) :: others := by
  induction start with
  | nil =>
    cases hpieces : pieces separator rest with
    | nil => exact absurd hpieces (pieces_ne_nil separator rest)
    | cons piece others => exact ⟨piece, others, hpieces⟩
  | cons c cs ih =>
    have hc : c ≠ separator := fun hc => h (hc ▸ List.mem_cons_self)
    obtain ⟨piece, others, hpieces⟩ := ih fun hmem => h (List.mem_cons_of_mem c hmem)
    refine ⟨piece, others, ?_⟩
    rw [List.cons_append, pieces, if_neg hc, hpieces]
    rfl

/-- What holds no separator stands in one piece. -/
theorem exists_piece_of_infix {separator : Char} {part cs : List Char} (hpart : separator ∉ part)
    (h : part <:+: cs) : ∃ piece ∈ pieces separator cs, part <:+: piece := by
  induction cs with
  | nil => exact ⟨[], List.mem_cons_self, h⟩
  | cons c cs ih =>
    rcases List.infix_cons_iff.1 h with ⟨rest, hrest⟩ | h
    · obtain ⟨piece, others, hpieces⟩ := pieces_of_start hpart rest
      rw [← hrest, hpieces]
      exact ⟨_, List.mem_cons_self, (List.prefix_append part piece).isInfix⟩
    · obtain ⟨piece, hpiece, hwithin⟩ := ih h
      rw [pieces]
      split
      · exact ⟨piece, List.mem_cons_of_mem _ hpiece, hwithin⟩
      · cases hpieces : pieces separator cs with
        | nil => exact absurd hpieces (pieces_ne_nil separator cs)
        | cons first others =>
          rw [hpieces] at hpiece
          rcases List.mem_cons.1 hpiece with rfl | hpiece
          · exact ⟨_, List.mem_cons_self, List.infix_cons hwithin⟩
          · exact ⟨piece, List.mem_cons_of_mem _ hpiece, hwithin⟩

/-- What holds no line feed stands in one line. -/
theorem exists_line_of_infix {part cs : List Char} (hne : part ≠ []) (hpart : '\n' ∉ part)
    (h : part <:+: cs) : ∃ line ∈ lines cs, part <:+: line := by
  induction cs with
  | nil => exact absurd (List.infix_nil.1 h) hne
  | cons c cs ih =>
    rcases List.infix_cons_iff.1 h with ⟨rest, hrest⟩ | h
    · obtain ⟨line, others, hlines⟩ := lines_of_start hne hpart rest
      rw [← hrest, hlines]
      exact ⟨_, List.mem_cons_self, (List.prefix_append part line).isInfix⟩
    · obtain ⟨line, hline, hwithin⟩ := ih h
      rw [lines]
      split
      · exact ⟨line, List.mem_cons_of_mem _ hline, hwithin⟩
      · cases hlines : lines cs with
        | nil => rw [hlines] at hline; cases hline
        | cons first others =>
          rw [hlines] at hline
          rcases List.mem_cons.1 hline with rfl | hline
          · exact ⟨_, List.mem_cons_self, List.infix_cons hwithin⟩
          · exact ⟨line, List.mem_cons_of_mem _ hline, hwithin⟩

/-- Moving a text in leaves what stands within a line as it is. -/
theorem infix_indent {part : List Char} {text : String} (hne : part ≠ []) (hpart : '\n' ∉ part)
    (h : part <:+: text.toList) (lead : String) : part <:+: (indent text lead).toList := by
  obtain ⟨line, hline, hwithin⟩ := exists_line_of_infix hne hpart h
  have hmoved : line <:+: indentLine lead.toList line := by
    unfold indentLine
    split
    · exact List.infix_rfl
    · exact (List.suffix_append _ _).isInfix
  rw [indent, String.toList_ofList]
  rw [List.flatMap_def]
  exact (hwithin.trans hmoved).trans (List.infix_of_mem_flatten (List.mem_map_of_mem hline))

/-- Of joined texts each one is a piece. -/
theorem infix_intercalate {text : List Char} {texts : List (List Char)} (h : text ∈ texts)
    (separator : List Char) : text <:+: separator.intercalate texts := by
  induction texts with
  | nil => cases h
  | cons first texts ih =>
    cases texts with
    | nil =>
      have heq : text = separator.intercalate [first] :=
        (List.mem_singleton.1 h).trans List.intercalate_singleton.symm
      exact heq ▸ List.infix_rfl
    | cons next texts =>
      rw [List.intercalate_cons_cons]
      rcases List.mem_cons.1 h with rfl | h
      · exact ((List.prefix_append _ _).trans (List.prefix_append _ _)).isInfix
      · exact (ih h).trans (List.suffix_append _ _).isInfix

end Text

namespace Comment

open Text

/-! ## Marks -/

/-- The mark that closes a block comment. -/
def closer : List Char := ['*', '/']

theorem infix_dropOpeners {part cs : List Char} (hpart : part ≠ [])
    (hslash : part.head? ≠ some '/') (hspace : part.head? ≠ some ' ') (h : part <:+: cs) :
    part <:+: dropOpeners cs := by
  induction cs using dropOpeners.induct with
  | case1 cs ih =>
    rw [dropOpeners]
    refine ih (infix_of_infix_cons hspace hpart ?_)
    exact infix_of_infix_cons hslash hpart (infix_of_infix_cons hslash hpart h)
  | case2 cs hcs =>
    rw [dropOpeners]
    · exact h
    · exact hcs

/-- Marks are split in each of two texts, unless a mark begins in the one and ends in the other. -/
theorem splitClosers_append {cs ds : List Char}
    (h : cs.getLast? ≠ some '*' ∨ ds.head? ≠ some '/') :
    splitClosers (cs ++ ds) = splitClosers cs ++ splitClosers ds := by
  induction cs using splitClosers.induct with
  | case1 cs ih =>
    have hcs : cs.getLast? ≠ some '*' ∨ ds.head? ≠ some '/' := by
      refine h.imp_left fun h hlast => h ?_
      rw [List.getLast?_cons, List.getLast?_cons, hlast]
      rfl
    rw [List.cons_append, List.cons_append, splitClosers, splitClosers, ih hcs]
    rfl
  | case2 c cs hne ih =>
    have hcs : cs.getLast? ≠ some '*' ∨ ds.head? ≠ some '/' := by
      refine h.imp_left fun h hlast => h ?_
      rw [List.getLast?_cons, hlast]
      rfl
    rw [List.cons_append, splitClosers.eq_2, splitClosers.eq_2 c cs hne, ih hcs]
    · rfl
    -- a mark at the start would begin with the last character of the first text
    · rintro rest rfl heq
      cases cs with
      | nil =>
        rcases h with h | h
        · exact h rfl
        · exact h (by rw [show ds = _ from heq]; rfl)
      | cons d cs =>
        obtain ⟨rfl, -⟩ := List.cons.inj heq
        exact hne cs rfl rfl
  | case3 => rfl

/-- No mark is left that would close the comment. -/
theorem closer_not_within_splitClosers (cs : List Char) : ¬closer <:+: splitClosers cs := by
  have hcons : ∀ c cs, ¬closer <:+: cs → (c = '*' → cs.head? ≠ some '/') → ¬closer <:+: c :: cs := by
    rintro c cs hcs hc hwithin
    rcases List.infix_cons_iff.1 hwithin with ⟨rest, hrest⟩ | hwithin
    · obtain ⟨rfl, rfl⟩ := List.cons.inj hrest
      exact hc rfl rfl
    · exact hcs hwithin
  induction cs using splitClosers.induct with
  | case1 cs ih =>
    rw [splitClosers]
    have hslash : ¬closer <:+: '/' :: splitClosers cs := hcons _ _ ih fun h => absurd h (by decide)
    refine hcons _ _ (hcons _ _ hslash fun h => absurd h (by decide)) fun _ h => ?_
    exact absurd (Option.some_inj.1 h) (by decide)
  | case2 c cs hne ih =>
    rw [splitClosers.eq_2 c cs hne]
    refine hcons _ _ ih ?_
    rintro rfl hhead
    cases cs with
    | nil => cases hhead
    | cons d cs =>
      have hd : d ≠ '/' := fun hd => hne cs rfl (hd ▸ rfl)
      rw [splitClosers.eq_2] at hhead
      · exact hd (Option.some_inj.1 hhead)
      · rintro rest rfl rfl
        cases hhead
  | case3 => exact fun hwithin => List.cons_ne_nil _ _ (List.infix_nil.1 hwithin)

theorem head?_splitClosers (cs : List Char) : (splitClosers cs).head? = cs.head? := by
  cases cs using splitClosers.fun_cases with
  | case1 cs => rfl
  | case2 c cs hne => rw [splitClosers.eq_2 c cs hne]; rfl
  | case3 => rfl

theorem getLast?_splitClosers (cs : List Char) : (splitClosers cs).getLast? = cs.getLast? := by
  induction cs using splitClosers.induct with
  | case1 cs ih => simp only [splitClosers, List.getLast?_cons, ih, Option.getD_some]
  | case2 c cs hne ih => simp only [splitClosers.eq_2 c cs hne, List.getLast?_cons, ih]
  | case3 => rfl

theorem splitClosers_eq_self {cs : List Char} (h : ¬closer <:+: cs) : splitClosers cs = cs := by
  induction cs using splitClosers.induct with
  | case1 cs => exact absurd (List.prefix_append closer cs).isInfix h
  | case2 c cs hne ih =>
    rw [splitClosers.eq_2 c cs hne, ih fun hwithin => h (List.infix_cons hwithin)]
  | case3 => rfl

/-! ## Passages -/

variable {part : List Char}

theorem isPassage_splitClosers (h : IsPassage part) : IsPassage (splitClosers part) where
  line hmem := by
    rcases mem_of_mem_splitClosers hmem with hmem | hmem
    · exact h.line hmem
    · cases hmem
  head := by rw [head?_splitClosers]; exact h.head
  last := by rw [getLast?_splitClosers]; exact h.last

/-- Marks within a passage are split, and none reaches beyond it. -/
theorem infix_splitClosers (hpart : IsPassage part) {cs : List Char} (h : part <:+: cs) :
    splitClosers part <:+: splitClosers cs := by
  obtain ⟨front, back, rfl⟩ := h
  obtain ⟨c, hhead, -, hslash⟩ := hpart.head
  obtain ⟨d, hlast, -, hstar⟩ := hpart.last
  have hbehind : (front ++ part).getLast? ≠ some '*' := by
    rw [List.getLast?_append, hlast]
    exact fun heq => hstar (Option.some_inj.1 heq)
  rw [splitClosers_append (.inl hbehind), splitClosers_append (.inr _)]
  · exact ⟨_, _, rfl⟩
  · rw [hhead]
    exact fun heq => hslash (Option.some_inj.1 heq)

/-- A passage of line comments is one of the block comment that they become. -/
theorem infix_body (hpart : IsPassage part) {comments : String} (h : part <:+: comments.toList) :
    splitClosers part <:+: body comments := by
  obtain ⟨c, hhead, hvisible, hslash⟩ := hpart.head
  obtain ⟨piece, hpiece, hwithin⟩ := exists_piece_of_infix hpart.line h
  have hline : part <:+: dropOpeners (trim piece) := by
    refine infix_dropOpeners hpart.ne_nil ?_ ?_ (hpart.infix_trim hwithin) <;> rw [hhead]
    · exact fun heq => hslash (Option.some_inj.1 heq)
    · rintro ⟨⟩
      cases hvisible
  have hmem : dropOpeners (trim piece) ∈ texts comments.toList := by
    refine List.mem_filter.2 ⟨List.mem_map_of_mem hpiece, ?_⟩
    rw [List.isEmpty_eq_false_iff.2 fun hnil => hpart.ne_nil (List.infix_nil.1 (hnil ▸ hline))]
    rfl
  exact infix_splitClosers hpart (hline.trans (infix_intercalate hmem [' ']))

/-- A block comment in the text holds a passage. -/
def Holds (part : List Char) (text : String) : Prop :=
  ∃ inside : List Char, "/* ".toList ++ inside ++ " */".toList <:+: text.toList ∧
    part <:+: inside ∧ '\n' ∉ inside ∧ ¬closer <:+: inside

variable {text : String}

@[grind ←]
theorem Holds.append_left (h : Holds part text) (front : String) : Holds part (front ++ text) := by
  obtain ⟨inside, hwithin, hinside⟩ := h
  refine ⟨inside, ?_, hinside⟩
  rw [String.toList_append]
  exact hwithin.trans (List.suffix_append _ _).isInfix

@[grind ←]
theorem Holds.append_right (h : Holds part text) (rest : String) : Holds part (text ++ rest) := by
  obtain ⟨inside, hwithin, hinside⟩ := h
  refine ⟨inside, ?_, hinside⟩
  rw [String.toList_append]
  exact hwithin.trans (List.prefix_append _ _).isInfix

/-- Two texts at once, since a search goes only some steps back from the end of a long text. -/
@[grind ←]
theorem Holds.append_pair (h : Holds part text) (rest rest' : String) :
    Holds part (text ++ rest ++ rest') :=
  (h.append_right rest).append_right rest'

/-- A block comment stands within a line. -/
theorem Holds.indent (h : Holds part text) (lead : String) : Holds part (Text.indent text lead) := by
  obtain ⟨inside, hwithin, hpart, hline, hcloser⟩ := h
  have hcomment : '\n' ∉ "/* ".toList ++ inside ++ " */".toList := by simp [hline]
  exact ⟨inside, infix_indent (by simp) hcomment hwithin lead, hpart, hline, hcloser⟩

theorem Holds.intercalate (h : Holds part text) {texts : List String} (htext : text ∈ texts)
    (separator : String) : Holds part (separator.intercalate texts) := by
  obtain ⟨before, after, rfl⟩ := List.append_of_mem htext
  obtain ⟨front, back, heq, -⟩ := exists_intercalate_eq separator text before after
  rw [heq]
  exact (h.append_left front).append_right back

theorem Holds.part_infix (h : Holds part text) : part <:+: text.toList := by
  obtain ⟨inside, hwithin, hpart, -⟩ := h
  have hinside : inside <:+: "/* ".toList ++ inside ++ " */".toList := ⟨_, _, rfl⟩
  exact (hpart.trans hinside).trans hwithin

/-- The comment in front of a value holds the passages of the lines that it is made of. -/
theorem holds_beforeValue (hpart : IsPassage part) {comments : String}
    (h : part <:+: comments.toList) (value : String) :
    Holds (splitClosers part) (beforeValue comments value) := by
  refine ⟨body comments, ?_, infix_body hpart h, fun hmem => ?_, closer_not_within_splitClosers _⟩
  · rw [beforeValue_eq]
    exact ⟨[], ' ' :: value.toList, by simp⟩
  · rcases mem_of_mem_body hmem with hspace | ⟨-, hline⟩
    · cases hspace
    · exact hline rfl

end Comment

end BlockCompiler
