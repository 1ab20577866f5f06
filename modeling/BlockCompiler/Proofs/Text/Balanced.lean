import BlockCompiler.Proofs.Expression.Writing
import BlockCompiler.Proofs.Text.Comment
import BlockCompiler.Proofs.Text.Literal
import BlockCompiler.Proofs.Text.Quoted
import BlockCompiler.Proofs.Text.Scan

set_option autoImplicit false

/-! # What keeps a text balanced

Names and numbers hold no character that means anything to the scanner. A text that is quoted is one
literal; comments end where they should, since a message stays on its line and every mark that would
close a block comment is split. -/

namespace BlockCompiler

open Scanner

/-! ## Plain texts -/

namespace Text

theorem isInline_of_isPlain {text : String} (h : text.toList.all isPlain = true) : IsInline text where
  balanced := scan_of_isPlain h
  unbroken hmem := absurd (List.all_eq_true.1 h _ hmem) (by decide)

theorem IsInline.append {text rest : String} (h : IsInline text) (hrest : IsInline rest) :
    IsInline (text ++ rest) where
  balanced := h.balanced.append hrest.balanced
  unbroken := by simp [h.unbroken, hrest.unbroken]

theorem isPlain_of_isWordChar {c : Char} (h : Identifier.isWordChar c = true) : isPlain c = true := by
  rw [isPlain, Bool.not_eq_true', ← Bool.not_eq_true, List.contains_iff_mem]
  intro hmem
  have htable : ['/', '"', '(', ')', '\x7b', '\x7d', '\n', '\r'].all
      (fun c => !Identifier.isWordChar c) = true := by decide
  have hc := List.all_eq_true.1 htable c hmem
  rw [h] at hc
  cases hc

theorem isPlain_of_isNumeral {c : Char} (h : isNumeral c = true) : isPlain c = true := by
  rw [isNumeral, Bool.or_eq_true, beq_iff_eq] at h
  rcases h with h | rfl
  · exact isPlain_of_isWordChar (Expression.isWordChar_of_isDigit h)
  · rfl

theorem isInline_toString (n : Int) : IsInline (toString n) :=
  isInline_of_isPlain (List.all_eq_true.2 fun _ hc => isPlain_of_isNumeral (isNumeral_of_mem_toString hc))

end Text

theorem Identifier.isInline_ofName (name : String) : Text.IsInline (ofName name) :=
  Text.isInline_of_isPlain (List.all_eq_true.2 fun _ hc =>
    Text.isPlain_of_isWordChar (List.all_eq_true.1 (Expression.isName_ofName name).word _ hc))

namespace Text

/-! ## Digits of any base -/

theorem isWordChar_of_digit? {base n : Nat} {c : Char} (h : digit? base c = some n) :
    Identifier.isWordChar c = true := by
  have hletter : ('0' ≤ c ∧ c ≤ '9') ∨ ('a' ≤ c ∧ c ≤ 'z') ∨ ('A' ≤ c ∧ c ≤ 'Z') := by
    by_contra hnone
    obtain ⟨h0, ha, hA⟩ : ¬('0' ≤ c ∧ c ≤ '9') ∧ ¬('a' ≤ c ∧ c ≤ 'z') ∧ ¬('A' ≤ c ∧ c ≤ 'Z') := by
      grind
    simp [digit?, h0, ha, hA] at h
  rw [Identifier.isWordChar, Char.isAlphanum]
  delta Char.isAlpha Char.isUpper Char.isLower
  simp only [Char.isDigit, Bool.or_eq_true, Bool.and_eq_true, decide_eq_true_eq, ge_iff_le]
  rcases hletter with h | h | h
  · exact .inl (.inr h)
  · exact .inl (.inl (.inr h))
  · exact .inl (.inl (.inl h))

theorem isWordChar_of_digitsFrom? {base value n : Nat} {cs : List Char}
    (h : digitsFrom? base value cs = some n) : cs.all Identifier.isWordChar = true := by
  induction cs generalizing value with
  | nil => rfl
  | cons c cs ih =>
    obtain ⟨digit, hdigit, hrest⟩ := Option.bind_eq_some_iff.1 h
    rw [List.all_cons, isWordChar_of_digit? hdigit, ih hrest]
    rfl

/-- What is read as an integer is plain. -/
theorem isPlain_of_signed? {base : Nat} {n : Int} {cs : List Char} (h : signed? base cs = some n) :
    cs.all isPlain = true := by
  have hdigits : ∀ ds, (digits? base ds).isSome = true → ds.all isPlain = true := by
    intro ds hds
    obtain ⟨value, hvalue⟩ := Option.isSome_iff_exists.1 hds
    unfold digits? at hvalue
    split at hvalue
    · cases hvalue
    · refine List.all_eq_true.2 fun c hc => isPlain_of_isWordChar ?_
      exact List.all_eq_true.1 (isWordChar_of_digitsFrom? hvalue) c hc
  have hsome : (digits? base (splitSign cs).2).isSome = true := by
    obtain ⟨value, hvalue, -⟩ := Option.map_eq_some_iff.1 (Option.filter_eq_some_iff.1 h).1
    exact Option.isSome_of_mem hvalue
  have htail := hdigits _ hsome
  unfold splitSign at htail
  split at htail
  · exact htail
  · exact htail
  · exact htail

/-- Taking off blanks and parentheses leaves every other character. -/
theorem mem_peel {c : Char} {cs : List Char} (h : c ∈ cs) (hvisible : isBlank c = false)
    (hparens : c ∉ ['(', ')']) (fuel : Nat) : c ∈ peel fuel cs := by
  induction fuel generalizing cs with
  | zero => exact mem_trim h hvisible
  | succ fuel ih =>
    have htrim := mem_trim h hvisible
    unfold peel
    split
    · next rest heq =>
      rw [heq] at htrim
      split
      · next hclose =>
        obtain ⟨inner, rfl⟩ := List.getLast?_eq_some_iff.1 (eq_of_beq hclose)
        rw [List.dropLast_concat]
        simp only [List.mem_cons, List.mem_append, List.not_mem_nil, or_false, not_or]
          at htrim hparens
        exact ih ((htrim.resolve_left hparens.1).resolve_right hparens.2)
      · exact htrim
    · exact htrim

/-- A text with a slash in it is not read as an integer. -/
theorem intLiteral?_of_slash {code : String} (h : '/' ∈ code.toList) : intLiteral? code = none := by
  refine Option.eq_none_iff_forall_ne_some.2 fun n hn => ?_
  have hplain := isPlain_of_signed? (show signed? 10 _ = some n from hn)
  exact absurd (List.all_eq_true.1 hplain '/' (mem_peel h rfl (by decide) _)) (by decide)

end Text

/-! ## Operands -/

namespace Text

theorem IsInline.parens {text : String} (h : IsInline text) : IsInline ("(" ++ text ++ ")") where
  balanced := h.balanced.between rfl rfl
  unbroken := by simp [h.unbroken]

end Text

theorem Operand.isInline_within {o : Operand} (h : Text.IsInline o.text) (outer : Precedence) :
    Text.IsInline (o.within outer) := by
  unfold Operand.within Precedence.wrap
  split
  · exact h.parens
  · exact h

/-! ## Comments -/

/-- A message on one line makes a comment of one line. -/
theorem Diagnostic.isBalanced_comment {d : Diagnostic}
    (hline : '\n' ∉ d.message.toList) (hreturn : '\r' ∉ d.message.toList) :
    Text.IsBalanced d.comment := by
  have hlabel : Spans ⟨.line, 0, 0⟩ d.severity.label ⟨.line, 0, 0⟩ := by
    cases d.severity <;> rfl
  have hmessage : Spans ⟨.line, 0, 0⟩ d.message ⟨.line, 0, 0⟩ := by
    refine scan_line fun c hc => ⟨?_, ?_⟩
    · rintro rfl
      exact hline hc
    · rintro rfl
      exact hreturn hc
  have hfront : Spans start "// " ⟨.line, 0, 0⟩ := rfl
  have hcolon : Spans ⟨.line, 0, 0⟩ ": " ⟨.line, 0, 0⟩ := rfl
  exact (((hfront.append hlabel).append hcolon).append hmessage).append rfl

namespace Comment

/-- In a block comment, a text whose closing marks are split closes nothing. Behind a star it must
not start with a slash. -/
theorem scan_splitClosers {parens braces : Nat} {cs : List Char} (hreturn : '\r' ∉ cs)
    {mode : Scanner.Mode} (hmode : mode = .block ∨ mode = .star ∧ cs.head? ≠ some '/') :
    ∃ mode', (mode' = .block ∨ mode' = .star) ∧
      scan ⟨mode, parens, braces⟩ (splitClosers cs) = some ⟨mode', parens, braces⟩ := by
  induction cs using splitClosers.induct generalizing mode with
  | case1 cs ih =>
    obtain ⟨mode', hmode', hscan⟩ := ih (by simp at hreturn; exact hreturn) (.inl rfl)
    refine ⟨mode', hmode', ?_⟩
    rw [splitClosers, ← hscan]
    rcases hmode with rfl | ⟨rfl, -⟩ <;> rfl
  | case2 c cs hne ih =>
    have hc : c ≠ '\r' := fun hc => hreturn (hc ▸ List.mem_cons_self)
    have hcs : '\r' ∉ cs := fun hmem => hreturn (List.mem_cons_of_mem c hmem)
    -- a slash stands behind no star
    have hstep : step ⟨mode, parens, braces⟩ c =
        some ⟨if c = '*' then .star else .block, parens, braces⟩ := by
      rcases hmode with rfl | ⟨rfl, hhead⟩
      · simp [step, hc]
      · have hslash : c ≠ '/' := fun hc => hhead (congrArg some hc)
        simp [step, hc, hslash]
    have hnext : (if c = '*' then Scanner.Mode.star else .block) = .block ∨
        (if c = '*' then Scanner.Mode.star else .block) = .star ∧ cs.head? ≠ some '/' := by
      split
      · next hstar =>
        subst hstar
        refine .inr ⟨rfl, fun hhead => ?_⟩
        obtain ⟨rest, rfl⟩ := List.head?_eq_some_iff.1 hhead
        exact hne rest rfl rfl
      · exact .inl rfl
    obtain ⟨mode', hmode', hscan⟩ := ih hcs hnext
    refine ⟨mode', hmode', ?_⟩
    rw [splitClosers, scan_cons, hstep]
    · exact hscan
    · exact hne
  | case3 =>
    exact ⟨mode, hmode.imp_right And.left, rfl⟩

/-- A comment in front of a value is closed behind its text and not before. -/
theorem isInline_beforeValue {comments value : String} (hcomments : '\r' ∉ comments.toList)
    (h : Text.IsInline value) : Text.IsInline (beforeValue comments value) where
  balanced := by
    have hjoined : '\r' ∉ List.intercalate [' '] (texts comments.toList) := by
      intro hmem
      rcases Text.mem_of_mem_intercalate hmem with hmem | ⟨line, hline, hmem⟩
      · cases List.mem_singleton.1 hmem
      · exact hcomments (mem_of_mem_texts hline hmem).1
    obtain ⟨mode, hmode, hbody⟩ := scan_splitClosers hjoined (.inl rfl)
    have hopen : Spans start "/* " ⟨.block, 0, 0⟩ := rfl
    have hclose : Spans ⟨mode, 0, 0⟩ " */ " start := by rcases hmode with rfl | rfl <;> rfl
    have hinside : Spans ⟨.block, 0, 0⟩ (String.ofList (body comments)) ⟨mode, 0, 0⟩ := by
      rw [Spans, String.toList_ofList]
      exact hbody
    exact ((hopen.append hinside).append hclose).append h.balanced
  unbroken := by
    have hbody : '\n' ∉ body comments := by
      intro hmem
      rcases mem_of_mem_body hmem with hspace | ⟨-, hline⟩
      · cases hspace
      · exact hline rfl
    rw [beforeValue_eq]
    simp [hbody, h.unbroken]

end Comment

/-! ## Literals -/

namespace Text

/-- An escape is passed over, whatever it stands for. -/
theorem scan_escape {parens braces : Nat} (cs : List Char) :
    scan ⟨.literal, parens, braces⟩ (escape cs) = some ⟨.literal, parens, braces⟩ := by
  induction cs with
  | nil => rfl
  | cons c cs ih =>
    have hchar : scan ⟨.literal, parens, braces⟩ (escapeChar c) =
        some ⟨.literal, parens, braces⟩ := by
      unfold escapeChar
      split
      · rfl
      · rfl
      · rfl
      · rfl
      · next hbackslash hquote hreturn hline =>
        have hstep : step ⟨.literal, parens, braces⟩ c = some ⟨.literal, parens, braces⟩ := by
          unfold step
          grind
        rw [scan_cons, hstep]
        rfl
    rw [escape, List.flatMap_cons, scan_append, hchar]
    exact ih

theorem isInline_quote (text : String) : IsInline (quote text) where
  balanced := by
    have hopen : scan start ['"'] = some ⟨.literal, 0, 0⟩ := rfl
    have hclose : scan ⟨.literal, 0, 0⟩ ['"'] = some start := rfl
    unfold IsBalanced Spans
    rw [quote, String.toList_ofList, ← List.singleton_append, List.append_assoc, scan_append, hopen,
      Option.bind_some, scan_append, scan_escape, Option.bind_some, hclose]
  unbroken := by
    rw [quote, String.toList_ofList]
    simp [not_mem_escape (.inl rfl) text.toList]

/-- The scanner stays in a literal as long as every quote stands behind a backslash. -/
theorem mode_of_quotesEscaped {s t : Scanner} {cs : List Char} {escaped : Bool}
    (hmode : s.mode = if escaped then .escape else .literal) (h : quotesEscaped escaped cs = true)
    (hscan : s.scan cs = some t) :
    (t.mode = .literal ∨ t.mode = .escape) ∧ t.parens = s.parens ∧ t.braces = s.braces := by
  induction cs generalizing s escaped with
  | nil =>
    obtain rfl := Option.some_inj.1 hscan
    cases escaped with
    | false => exact ⟨.inl hmode, rfl, rfl⟩
    | true => exact ⟨.inr hmode, rfl, rfl⟩
  | cons c cs ih =>
    obtain ⟨u, hu, hrest⟩ := Option.bind_eq_some_iff.1 hscan
    obtain ⟨mode, parens, braces⟩ := s
    have hnext : ∃ next, u.mode = (if next then .escape else .literal) ∧
        quotesEscaped next cs = true ∧ u.parens = parens ∧ u.braces = braces := by
      unfold quotesEscaped at h
      unfold step at hu
      cases escaped <;> subst hmode <;> grind
    obtain ⟨next, hnext, hquotes, hparens, hbraces⟩ := hnext
    obtain ⟨hend, hparens', hbraces'⟩ := ih hnext hquotes hrest
    exact ⟨hend, hparens'.trans hparens, hbraces'.trans hbraces⟩

/-- Blanks that are read change nothing, in a literal and outside. -/
theorem eq_of_scan_blanks {s t : Scanner} {cs : List Char} (hmode : s.mode = .code ∨ s.mode = .literal)
    (h : ∀ c ∈ cs, isBlank c = true) (hscan : s.scan cs = some t) : t = s := by
  have htable : ['/', '"', '(', ')', '\x7b', '\x7d', '\\'].all (fun c => !isBlank c) = true := by
    decide
  induction cs with
  | nil => exact (Option.some_inj.1 hscan).symm
  | cons c cs ih =>
    obtain ⟨u, hu, hrest⟩ := Option.bind_eq_some_iff.1 hscan
    have hc : c ∉ ['/', '"', '(', ')', '\x7b', '\x7d', '\\'] := fun hmem =>
      Bool.false_ne_true ((Bool.not_eq_true' _ ▸ List.all_eq_true.1 htable c hmem).symm.trans
        (h c List.mem_cons_self))
    simp only [List.mem_cons, List.not_mem_nil, or_false, not_or] at hc
    obtain rfl : u = s := by
      obtain ⟨mode, parens, braces⟩ := s
      unfold step Scanner.read at hu
      rcases hmode with rfl | rfl <;> grind
    exact ih (fun d hd => h d (List.mem_cons_of_mem c hd)) hrest

/-- The body of a literal that is a balanced text goes from its one quote to the other. -/
theorem spans_of_literalBody? {text body : String} (h : IsBalanced text)
    (hbody : literalBody? text = some body) {parens braces : Nat} :
    Spans ⟨.literal, parens, braces⟩ body ⟨.literal, parens, braces⟩ := by
  obtain ⟨chars, hchars, rfl⟩ := Option.map_eq_some_iff.1 hbody
  obtain ⟨lead, trail, htext, hlead, htrail⟩ := trim_spec text.toList
  unfold literalChars? at hchars
  split at hchars
  · next rest htrim =>
    split at hchars
    · next hquotes =>
      obtain rfl := Option.some_inj.1 hchars
      obtain ⟨hlast, hescaped⟩ := Bool.and_eq_true_iff.1 hquotes
      obtain ⟨inner, rfl⟩ := List.getLast?_eq_some_iff.1 (eq_of_beq hlast)
      rw [List.dropLast_concat] at hescaped ⊢
      have hscan : start.scan text.toList = some start := h
      -- the text is `lead`, the opening quote, `inner`, the closing quote and `trail`
      rw [htext, htrim, scan_append, scan_append] at hscan
      obtain ⟨u, hfront, hback⟩ := Option.bind_eq_some_iff.1 hscan
      obtain ⟨v, hblanks, hliteral⟩ := Option.bind_eq_some_iff.1 hfront
      obtain rfl := eq_of_scan_blanks (.inl rfl) hlead hblanks
      have hinside : scan ⟨.literal, 0, 0⟩ (inner ++ ['"']) = some u := hliteral
      rw [scan_append] at hinside
      obtain ⟨w, hinner, hclose⟩ := Option.bind_eq_some_iff.1 hinside
      obtain ⟨hmode, hparens, hbraces⟩ :=
        mode_of_quotesEscaped (s := ⟨.literal, 0, 0⟩) rfl hescaped hinner
      obtain ⟨mode, p, b⟩ := w
      obtain ⟨rfl, rfl⟩ : p = 0 ∧ b = 0 := ⟨hparens, hbraces⟩
      rcases hmode with rfl | rfl
      · have hbody : Spans ⟨.literal, 0, 0⟩ (String.ofList inner) ⟨.literal, 0, 0⟩ := by
          rw [Spans, String.toList_ofList]
          exact hinner
        exact hbody.anywhere
      · -- behind a backslash the quote closes nothing, and neither do blanks
        obtain rfl : u = ⟨.literal, 0, 0⟩ := (Option.some_inj.1 hclose).symm
        cases eq_of_scan_blanks (.inr rfl) htrail hback
    · cases hchars
  · cases hchars

end Text

end BlockCompiler
