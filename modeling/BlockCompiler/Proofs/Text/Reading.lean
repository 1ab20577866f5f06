import BlockCompiler.Proofs.Text.Lines

set_option autoImplicit false

/-! # What C reads

C reads a text in two steps. A backslash directly in front of a line feed goes together with it, so the
line is joined to the next one. Then every comment counts as a blank, unless it stands in a literal. What
is left is code, line by line, of which C skips the lines that hold nothing.

Texts that C reads to their end are read one by one: a comment, a literal or a line that goes on is the
only way in which a text touches the text behind it. -/

namespace BlockCompiler

/-! ## Joining lines -/

namespace Text

/-- Joins each line that ends with a backslash to the next one. -/
def joinLines : List Char → List Char
  | '\\' :: '\n' :: cs => joinLines cs
  | c :: cs => c :: joinLines cs
  | [] => []

theorem joinLines_cons {c : Char} {cs : List Char} (h : c = '\\' → cs.head? ≠ some '\n') :
    joinLines (c :: cs) = c :: joinLines cs := by
  rw [joinLines]
  rintro rest rfl rfl
  exact h rfl rfl

/-- Where no backslash is the last character, a text is joined up to there. -/
theorem joinLines_append {cs : List Char} (h : cs.getLast? ≠ some '\\') (ds : List Char) :
    joinLines (cs ++ ds) = joinLines cs ++ joinLines ds := by
  induction cs using joinLines.induct with
  | case1 cs ih =>
    rw [List.cons_append, List.cons_append, joinLines, joinLines]
    cases cs with
    | nil => rfl
    | cons c cs => exact ih (by simpa using h)
  | case2 c cs hc ih =>
    have hfirst : c = '\\' → (cs ++ ds).head? ≠ some '\n' := by
      rintro rfl hhead
      cases cs with
      | nil => exact h rfl
      | cons d cs =>
        obtain rfl : d = '\n' := Option.some_inj.1 hhead
        exact hc cs rfl rfl
    have hcs : cs.getLast? ≠ some '\\' := by
      cases cs with
      | nil => exact nofun
      | cons d cs => simpa using h
    rw [List.cons_append, joinLines_cons hfirst, ih hcs, joinLines]
    · rfl
    · exact hc
  | case3 => rfl

/-- A line without a backslash at its end stays as it is. -/
theorem joinLines_of_not_mem {cs : List Char} (h : '\n' ∉ cs) : joinLines cs = cs := by
  induction cs with
  | nil => rfl
  | cons c cs ih =>
    have hcs : '\n' ∉ cs := fun hmem => h (List.mem_cons_of_mem c hmem)
    have hhead : c = '\\' → cs.head? ≠ some '\n' := fun _ hhead =>
      hcs (List.mem_of_mem_head? hhead)
    rw [joinLines_cons hhead, ih hcs]

/-- A line that a backslash joins to what stands behind it. -/
theorem joinLines_append_backslash {cs : List Char} (h : '\n' ∉ cs) (ds : List Char) :
    joinLines (cs ++ '\\' :: '\n' :: ds) = cs ++ joinLines ds := by
  induction cs with
  | nil => rfl
  | cons c cs ih =>
    have hcs : '\n' ∉ cs := fun hmem => h (List.mem_cons_of_mem c hmem)
    have hhead : c = '\\' → (cs ++ '\\' :: '\n' :: ds).head? ≠ some '\n' := by
      rintro - hhead
      cases cs with
      | nil => cases hhead
      | cons d cs => exact hcs (Option.some_inj.1 hhead ▸ List.mem_cons_self)
    rw [List.cons_append, joinLines_cons hhead, ih hcs, List.cons_append]

end Text

/-! ## Leaving out comments -/

/-- What C is inside of while it reads. -/
inductive Reader where
  | code
  /-- Behind a slash that may open a comment. -/
  | slash
  /-- In a text or a character that a quote closes. -/
  | literal (quote : Char)
  /-- Behind a backslash in a literal. -/
  | escape (quote : Char)
  /-- In a comment that ends with its line. -/
  | line
  | block
  /-- Behind a star that may close a block comment. -/
  | star
  deriving Repr, DecidableEq

namespace Reader

/-- A character outside of literals and comments. -/
def plain (c : Char) : Reader :=
  if c = '/' then .slash else if c = '"' ∨ c = '\'' then .literal c else .code

/-- Reads a character. A literal that is not closed ends with its line. -/
def step : Reader → Char → Reader
  | .code, c => plain c
  | .slash, c => if c = '/' then .line else if c = '*' then .block else plain c
  | .literal quote, c =>
    if c = quote ∨ c = '\n' then .code else if c = '\\' then .escape quote else .literal quote
  | .escape quote, c => if c = '\n' then .code else .literal quote
  | .line, c => if c = '\n' then .code else .line
  | .block, c => if c = '*' then .star else .block
  | .star, c => if c = '/' then .code else if c = '*' then .star else .block

/-- The code that a character adds. A slash waits for the character behind it, and a comment counts as
a blank. -/
def adds : Reader → Char → List Char
  | .code, c => if c = '/' then [] else [c]
  | .slash, c => if c = '/' ∨ c = '*' then [' '] else ['/', c]
  | .literal _, c => [c]
  | .escape _, c => [c]
  | .line, c => if c = '\n' then [c] else []
  | .block, _ => []
  | .star, _ => []

/-- A slash with nothing behind it is code. -/
def rest : Reader → List Char
  | .slash => ['/']
  | _ => []

/-- What C is inside of behind a text. -/
def after (r : Reader) (cs : List Char) : Reader := cs.foldl step r

/-- The code of a text up to its end. -/
def codeOf : Reader → List Char → List Char
  | _, [] => []
  | r, c :: cs => r.adds c ++ (r.step c).codeOf cs

/-- The code of a text that nothing stands behind. -/
def reads (r : Reader) (cs : List Char) : List Char := r.codeOf cs ++ (r.after cs).rest

@[simp] theorem after_nil (r : Reader) : r.after [] = r := rfl

@[simp] theorem after_cons (r : Reader) (c : Char) (cs : List Char) :
    r.after (c :: cs) = (r.step c).after cs := rfl

theorem after_append (r : Reader) (cs ds : List Char) :
    r.after (cs ++ ds) = (r.after cs).after ds := List.foldl_append

theorem codeOf_append (r : Reader) (cs ds : List Char) :
    r.codeOf (cs ++ ds) = r.codeOf cs ++ (r.after cs).codeOf ds := by
  induction cs generalizing r with
  | nil => rfl
  | cons c cs ih => rw [List.cons_append, codeOf, codeOf, ih, after_cons, List.append_assoc]

theorem reads_append (r : Reader) (cs ds : List Char) :
    r.reads (cs ++ ds) = r.codeOf cs ++ (r.after cs).reads ds := by
  rw [reads, reads, codeOf_append, after_append, List.append_assoc]

/-- A comment goes on to the end of its line. -/
theorem after_line {cs : List Char} (h : '\n' ∉ cs) : after .line cs = .line := by
  induction cs with
  | nil => rfl
  | cons c cs ih =>
    have hc : c ≠ '\n' := fun hc => h (hc ▸ List.mem_cons_self)
    rw [after_cons, step, if_neg hc]
    exact ih fun hmem => h (List.mem_cons_of_mem c hmem)

theorem codeOf_line {cs : List Char} (h : '\n' ∉ cs) : codeOf .line cs = [] := by
  induction cs with
  | nil => rfl
  | cons c cs ih =>
    have hc : c ≠ '\n' := fun hc => h (hc ▸ List.mem_cons_self)
    rw [codeOf, adds, step, if_neg hc, if_neg hc]
    exact ih fun hmem => h (List.mem_cons_of_mem c hmem)

/-- No comment of one line goes on behind a line feed. -/
theorem step_newline_ne_line (r : Reader) : r.step '\n' ≠ .line := by
  cases r with
  | literal quote => rw [step, if_pos (.inr rfl)]; exact nofun
  | _ => exact nofun

end Reader

namespace Text

/-! ## Lines of code -/

/-- White space of C. -/
def isSpacing (c : Char) : Bool := [' ', '\t', '\n', '\x0b', '\x0c'].contains c

/-- The lines of code that C reads in a text. -/
def codeLines (cs : List Char) : List (List Char) :=
  (lines (Reader.reads .code (joinLines cs))).filter fun line => !line.all isSpacing

example : codeLines "// a\n/* b */ f('/', \"//\"); // c \\\nd\n\ng();".toList =
    ["  f('/', \"//\");  \n".toList, "g();".toList] := by decide

/-- C reads a text to its end: the last line ends, and is not joined to the next one, nor is a literal or
a comment left open. -/
structure IsComplete (cs : List Char) : Prop where
  ends : EndsLine cs
  after : Reader.after .code (joinLines cs) = .code
  line : EndsLine (Reader.codeOf .code (joinLines cs))

theorem EndsLine.getLast?_ne {cs : List Char} (h : EndsLine cs) : cs.getLast? ≠ some '\\' := by
  rcases h with rfl | h
  · exact nofun
  · rw [h]
    exact fun heq => absurd (Option.some_inj.1 heq) (by decide)

/-- A text that is read to its end is read for itself. -/
theorem IsComplete.codeLines_append {cs : List Char} (h : IsComplete cs) (ds : List Char) :
    codeLines (cs ++ ds) = codeLines cs ++ codeLines ds := by
  have hread : ∀ ds, Reader.reads .code (joinLines cs ++ ds) =
      Reader.codeOf .code (joinLines cs) ++ Reader.reads .code ds := by
    intro ds
    rw [Reader.reads_append, h.after]
  have halone : Reader.reads .code (joinLines cs) = Reader.codeOf .code (joinLines cs) := by
    have hnil := hread []
    rwa [List.append_nil, show Reader.reads .code [] = [] from rfl, List.append_nil] at hnil
  unfold codeLines
  rw [joinLines_append h.ends.getLast?_ne, hread, halone, lines_append h.line, List.filter_append]

theorem isComplete_nil : IsComplete [] := ⟨.inl rfl, rfl, .inl rfl⟩

/-! ## Comments that go on behind a text -/

/-- A line comment that begins in the text goes on behind it. -/
def Swallows (text : String) : Prop :=
  ∃ r : Reader, r ≠ .line ∧ r.after (joinLines text.toList) = .line

/-- The characters end with a line feed that no backslash stands before. -/
def EndsTight (cs : List Char) : Prop := ∃ front, cs = front ++ ['\n'] ∧ front.getLast? ≠ some '\\'

/-- The text ends with a line feed that no backslash stands before, if it holds anything. -/
def IsTight (text : String) : Prop := text = "" ∨ EndsTight text.toList

theorem isTight_empty : IsTight "" := .inl rfl

/-- Whether the last character is a line feed, and the one before it no backslash. -/
def endsTight (text : String) : Bool :=
  match text.toList.reverse with
  | '\n' :: c :: _ => c != '\\'
  | _ => false

theorem IsTight.of_end (front : String) {back : String} (h : endsTight back = true) :
    IsTight (front ++ back) := by
  unfold endsTight at h
  split at h
  · next c cs hback =>
    have hchars : back.toList = cs.reverse ++ [c] ++ ['\n'] := by
      rw [← List.reverse_reverse back.toList, hback]
      simp
    refine .inr ⟨front.toList ++ (cs.reverse ++ [c]), ?_, ?_⟩
    · rw [String.toList_append, hchars, ← List.append_assoc]
    · rw [← List.append_assoc, List.getLast?_concat]
      exact fun heq => absurd (Option.some_inj.1 heq) (by simpa using h)
  · cases h

/-- Behind a line that no backslash joins to the next one, no line comment goes on. -/
theorem IsTight.not_swallows {text : String} (h : IsTight text) : ¬Swallows text := by
  rintro ⟨r, hr, hafter⟩
  rcases h with rfl | ⟨front, htext, hfront⟩
  · exact hr hafter
  · rw [htext, joinLines_append hfront, Reader.after_append] at hafter
    exact Reader.step_newline_ne_line _ hafter

/-- Whole lines that a comment goes on behind end with a backslash in front of the line feed. -/
theorem IsClosed.ends_of_swallows {text : String} (h : IsClosed text) (hswallows : Swallows text) :
    ∃ front, text.toList = front ++ ['\\', '\n'] := by
  rcases h with rfl | h
  · exact absurd hswallows isTight_empty.not_swallows
  · obtain ⟨front, htext⟩ := List.getLast?_eq_some_iff.1 (eq_of_beq h)
    by_cases hlast : front.getLast? = some '\\'
    · obtain ⟨before, rfl⟩ := List.getLast?_eq_some_iff.1 hlast
      exact ⟨before, by rw [htext, List.append_assoc]; rfl⟩
    · exact absurd hswallows (IsTight.not_swallows (.inr ⟨front, htext, hlast⟩))

end Text

end BlockCompiler
