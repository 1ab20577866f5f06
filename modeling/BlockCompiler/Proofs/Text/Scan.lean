import BlockCompiler.Proofs.Text.Lines

set_option autoImplicit false

/-! # Balanced texts

A scanner for the layers of C below its grammar: string literals with their escapes, comments to the
end of the line, block comments, and how many parentheses and braces are open outside of all these. A
text is balanced if the scanner comes out of it as it went in, without a parenthesis or brace that
closes nothing on the way. Balanced texts can be put anywhere outside of literals and comments, and
moving their lines in keeps them balanced. -/

namespace BlockCompiler

/-- What a scanner is inside of. -/
inductive Scanner.Mode where
  | code
  /-- Behind a slash that may open a comment. -/
  | slash
  | literal
  /-- Behind a backslash in a literal. -/
  | escape
  /-- In a comment that ends with its line. -/
  | line
  | block
  /-- Behind a star that may close a block comment. -/
  | star
  deriving Repr, DecidableEq

/-- A scanner: its mode and how many parentheses and braces are open. -/
structure Scanner where
  mode : Scanner.Mode
  parens : Nat
  braces : Nat
  deriving Repr, DecidableEq

namespace Scanner

/-- Outside of literals and comments, with nothing open. -/
def start : Scanner := ⟨.code, 0, 0⟩

/-- Reads a character outside of literals and comments. -/
def read (s : Scanner) (c : Char) : Option Scanner :=
  if c = '/' then some { s with mode := .slash }
  else if c = '"' then some { s with mode := .literal }
  else if c = '(' then some ⟨.code, s.parens + 1, s.braces⟩
  else if c = ')' then if s.parens = 0 then none else some ⟨.code, s.parens - 1, s.braces⟩
  else if c = '\x7b' then some ⟨.code, s.parens, s.braces + 1⟩
  else if c = '\x7d' then if s.braces = 0 then none else some ⟨.code, s.parens, s.braces - 1⟩
  else some { s with mode := .code }

/-- Reads a character. Lines end with line feeds alone, and no line ends inside a literal. -/
def step (s : Scanner) (c : Char) : Option Scanner :=
  if c = '\r' then none
  else match s.mode with
    | .code => s.read c
    | .slash =>
      if c = '/' then some { s with mode := .line }
      else if c = '*' then some { s with mode := .block }
      else s.read c
    | .literal =>
      if c = '\n' then none
      else some { s with
        mode := if c = '"' then .code else if c = '\\' then .escape else .literal }
    | .escape => if c = '\n' then none else some { s with mode := .literal }
    | .line => some { s with mode := if c = '\n' then .code else .line }
    | .block => some { s with mode := if c = '*' then .star else .block }
    | .star =>
      some { s with mode := if c = '/' then .code else if c = '*' then .star else .block }

/-- Reads the characters of a text in turn. -/
def scan (s : Scanner) (cs : List Char) : Option Scanner := cs.foldlM step s

/-- The scanner with more open around it. -/
def deepen (s : Scanner) (parens braces : Nat) : Scanner :=
  ⟨s.mode, s.parens + parens, s.braces + braces⟩

/-- A text takes the scanner from one state to another. -/
def Spans (s : Scanner) (text : String) (t : Scanner) : Prop := s.scan text.toList = some t

instance (s : Scanner) (text : String) (t : Scanner) : Decidable (Spans s text t) :=
  inferInstanceAs (Decidable (_ = _))

example : Spans start "f(\"\\\")\"); // (" ⟨.line, 0, 0⟩ := by decide

/-! ## Reading on -/

@[simp] theorem scan_nil (s : Scanner) : s.scan [] = some s := rfl

@[simp] theorem scan_cons (s : Scanner) (c : Char) (cs : List Char) :
    s.scan (c :: cs) = (s.step c).bind fun t => t.scan cs := rfl

theorem scan_append (s : Scanner) (cs ds : List Char) :
    s.scan (cs ++ ds) = (s.scan cs).bind fun t => t.scan ds := List.foldlM_append

variable {s t u : Scanner} {cs : List Char}

theorem read_deepen {c : Char} (h : s.read c = some t) (parens braces : Nat) :
    (s.deepen parens braces).read c = some (t.deepen parens braces) := by
  unfold read deepen at *
  grind

theorem step_deepen {c : Char} (h : s.step c = some t) (parens braces : Nat) :
    (s.deepen parens braces).step c = some (t.deepen parens braces) := by
  obtain ⟨mode, p, b⟩ := s
  unfold step at *
  cases mode <;> grind [deepen, read_deepen]

theorem scan_deepen (h : s.scan cs = some t) (parens braces : Nat) :
    (s.deepen parens braces).scan cs = some (t.deepen parens braces) := by
  induction cs generalizing s with
  | nil =>
    obtain rfl := Option.some_inj.1 h
    rfl
  | cons c cs ih =>
    obtain ⟨u, hu, hrest⟩ := Option.bind_eq_some_iff.1 h
    rw [scan_cons, step_deepen hu]
    exact ih hrest

theorem Spans.append {text rest : String} (h : Spans s text t) (hrest : Spans t rest u) :
    Spans s (text ++ rest) u := by
  unfold Spans at *
  rw [String.toList_append, scan_append, h]
  exact hrest

/-- A text whose end state is known, in front of the rest. -/
theorem Spans.text {text rest : String} (t : Scanner) (h : s.scan text.toList = some t)
    (hrest : Spans t rest u) : Spans s (text ++ rest) u :=
  Spans.append h hrest

/-- What is read does not hang on what is open around it. -/
theorem Spans.deepen {text : String} (h : Spans s text t) (parens braces : Nat) :
    Spans (s.deepen parens braces) text (t.deepen parens braces) :=
  scan_deepen h parens braces

theorem Spans.anywhere {mode mode' : Mode} {text : String} (h : Spans ⟨mode, 0, 0⟩ text ⟨mode', 0, 0⟩)
    {parens braces : Nat} : Spans ⟨mode, parens, braces⟩ text ⟨mode', parens, braces⟩ := by
  have hdeepen := h.deepen parens braces
  unfold Scanner.deepen at hdeepen
  rwa [Nat.zero_add, Nat.zero_add] at hdeepen

/-! ## Stretches that change nothing -/

variable {parens braces : Nat}

/-- A character that means nothing to the scanner outside of literals and comments, nor ends a
line. -/
def isPlain (c : Char) : Bool :=
  !(['/', '"', '(', ')', '\x7b', '\x7d', '\n', '\r'].contains c)

theorem scan_of_isPlain (h : cs.all isPlain = true) :
    scan ⟨.code, parens, braces⟩ cs = some ⟨.code, parens, braces⟩ := by
  induction cs with
  | nil => rfl
  | cons c cs ih =>
    obtain ⟨hc, hcs⟩ := Bool.and_eq_true_iff.1 h
    have hstep : step ⟨.code, parens, braces⟩ c = some ⟨.code, parens, braces⟩ := by
      simp [isPlain] at hc
      simp [step, read, hc]
    rw [scan_cons, hstep]
    exact ih hcs

/-- Plain characters in front of the rest. -/
theorem Spans.plain {text rest : String} (h : text.toList.all isPlain = true)
    (hrest : Spans ⟨.code, parens, braces⟩ rest u) :
    Spans ⟨.code, parens, braces⟩ (text ++ rest) u :=
  Spans.append (scan_of_isPlain h) hrest

/-- A comment goes on to the end of its line. -/
theorem scan_line (h : ∀ c ∈ cs, c ≠ '\n' ∧ c ≠ '\r') :
    scan ⟨.line, parens, braces⟩ cs = some ⟨.line, parens, braces⟩ := by
  induction cs with
  | nil => rfl
  | cons c cs ih =>
    obtain ⟨hline, hreturn⟩ := h c List.mem_cons_self
    have hstep : step ⟨.line, parens, braces⟩ c = some ⟨.line, parens, braces⟩ := by
      simp [step, hline, hreturn]
    rw [scan_cons, hstep]
    exact ih fun d hd => h d (List.mem_cons_of_mem c hd)

/-- A carriage return is read nowhere. -/
theorem not_mem_return (h : s.scan cs = some t) : '\r' ∉ cs := by
  induction cs generalizing s with
  | nil => exact List.not_mem_nil
  | cons c cs ih =>
    obtain ⟨u, hu, hrest⟩ := Option.bind_eq_some_iff.1 h
    refine List.not_mem_cons_of_ne_of_not_mem ?_ (ih hrest)
    rintro rfl
    cases hu

/-! ## Moving lines in -/

/-- Between tokens, or inside a block comment: where blanks may be put. -/
def AtMargin (s : Scanner) : Prop := s.mode = .code ∨ s.mode = .block

theorem AtMargin.scan_spaces (hs : s.AtMargin) (h : ∀ c ∈ cs, c = ' ') : s.scan cs = some s := by
  induction cs with
  | nil => rfl
  | cons c cs ih =>
    obtain rfl := h c List.mem_cons_self
    have hstep : s.step ' ' = some s := by
      obtain ⟨mode, p, b⟩ := s
      rcases hs with rfl | rfl <;> rfl
    rw [scan_cons, hstep]
    exact ih fun d hd => h d (List.mem_cons_of_mem _ hd)

/-- A line starts at a margin. -/
theorem atMargin_of_step (h : s.step '\n' = some t) : t.AtMargin := by
  obtain ⟨mode, p, b⟩ := s
  cases mode <;> cases h
  all_goals first
    | exact .inl rfl
    | exact .inr rfl

theorem atMargin_of_scan (h : s.scan cs = some t) (hend : cs.getLast? = some '\n') :
    t.AtMargin := by
  obtain ⟨front, rfl⟩ := List.getLast?_eq_some_iff.1 hend
  rw [scan_append] at h
  obtain ⟨u, -, hlast⟩ := Option.bind_eq_some_iff.1 h
  obtain ⟨v, hv, hnil⟩ := Option.bind_eq_some_iff.1 hlast
  obtain rfl := Option.some_inj.1 hnil
  exact atMargin_of_step hv

/-- Blanks in front of the lines of a text are not noticed. -/
theorem scan_indent {s t : Scanner} {cs lead : List Char} (hs : s.AtMargin)
    (hlead : ∀ c ∈ lead, c = ' ') (h : s.scan cs = some t) :
    s.scan ((Text.lines cs).flatMap (Text.indentLine lead)) = some t := by
  by_cases hnil : cs = []
  · subst hnil
    exact h
  obtain ⟨line, rest, rfl, hlines, hne, hend⟩ := Text.lines_eq_cons hnil
  rw [scan_append] at h
  obtain ⟨u, hline, hrest⟩ := Option.bind_eq_some_iff.1 h
  have hmoved : s.scan (Text.indentLine lead line) = some u := by
    unfold Text.indentLine
    split
    · exact hline
    · rw [scan_append, hs.scan_spaces hlead]
      exact hline
  rw [hlines, List.flatMap_cons, scan_append, hmoved]
  rcases hend with rfl | hend
  · exact hrest
  · have hlt : rest.length < (line ++ rest).length := by
      have := List.length_pos_iff.2 hne
      rw [List.length_append]
      omega
    exact scan_indent (atMargin_of_scan hline hend) hlead hrest
termination_by cs.length

end Scanner

namespace Text

open Scanner

/-! ## Balanced texts -/

/-- The scanner comes out as it went in. -/
def IsBalanced (text : String) : Prop := Spans start text start

/-- A balanced text within a line. -/
structure IsInline (text : String) : Prop where
  balanced : IsBalanced text
  unbroken : '\n' ∉ text.toList

instance (text : String) : Decidable (IsBalanced text) := inferInstanceAs (Decidable (Spans ..))

instance (text : String) : Decidable (IsInline text) :=
  decidable_of_iff (IsBalanced text ∧ '\n' ∉ text.toList)
    ⟨fun h => ⟨h.1, h.2⟩, fun h => ⟨h.1, h.2⟩⟩

variable {text rest front back : String} {parens braces : Nat}

theorem isBalanced_empty : IsBalanced "" := rfl

theorem IsBalanced.append (h : IsBalanced text) (hrest : IsBalanced rest) :
    IsBalanced (text ++ rest) :=
  Spans.append h hrest

theorem isBalanced_join {texts : List String} (h : ∀ text ∈ texts, IsBalanced text) :
    IsBalanced (String.join texts) := by
  induction texts with
  | nil => exact isBalanced_empty
  | cons text texts ih =>
    rw [String.join_cons]
    exact (h text List.mem_cons_self).append (ih fun t ht => h t (List.mem_cons_of_mem text ht))

/-- Outside of literals and comments a balanced text changes nothing. -/
theorem IsBalanced.spans (h : IsBalanced text) :
    Spans ⟨.code, parens, braces⟩ text ⟨.code, parens, braces⟩ :=
  Spans.anywhere h

/-- A balanced text in front of the rest. -/
theorem IsBalanced.then {t : Scanner} (h : IsBalanced text)
    (hrest : Spans ⟨.code, parens, braces⟩ rest t) :
    Spans ⟨.code, parens, braces⟩ (text ++ rest) t :=
  Spans.append h.spans hrest

/-- A balanced text between two that match. -/
theorem IsBalanced.between (h : IsBalanced text) (hfront : Spans start front ⟨.code, parens, braces⟩)
    (hback : Spans ⟨.code, parens, braces⟩ back start) : IsBalanced (front ++ text ++ back) :=
  (hfront.append h.spans).append hback

theorem IsBalanced.closeLine (h : IsBalanced text) : IsBalanced (Text.closeLine text) := by
  unfold Text.closeLine
  split
  · exact h
  · exact h.append rfl

/-- Moving lines in keeps a text balanced. -/
theorem IsBalanced.indent (h : IsBalanced text) {lead : String}
    (hspaces : ∀ c ∈ lead.toList, c = ' ') : IsBalanced (Text.indent text lead) := by
  unfold IsBalanced Spans Text.indent
  rw [String.toList_ofList]
  exact scan_indent (.inl rfl) hspaces h

end Text

end BlockCompiler
