import BlockCompiler.Proofs.Emission.Shown
import BlockCompiler.Proofs.Text.Unescape
import Mathlib.Algebra.Group.Nat.Even
import Mathlib.Data.List.DropRight

set_option autoImplicit false

/-! # Bodies of literals

A text is taken for a literal if it opens and closes with a quote and each quote in between stands behind
a backslash. Nobody asks how the text in between ends. So there are texts that pass besides those whose
body is a sequence of items: their body leaves a backslash over, and the quote that should close them is
escaped. The number of backslashes in front of that quote tells the two apart. No value of a block is of
the second kind. -/

namespace BlockCompiler

namespace Text

/-! ## Items -/

/-- Items of a literal and then `rest`. An item is a character other than a quote and a backslash, or a
backslash and one more character. -/
inductive HasItems (rest : List Char) : List Char → Prop
  | done : HasItems rest rest
  | plain {c : Char} {cs : List Char} :
    c ≠ '"' → c ≠ '\\' → HasItems rest cs → HasItems rest (c :: cs)
  | escape {c : Char} {cs : List Char} : HasItems rest cs → HasItems rest ('\\' :: c :: cs)

/-- The body of a literal: items and nothing else. -/
def IsBody (cs : List Char) : Prop := HasItems [] cs

theorem HasItems.quotesEscaped_eq {rest cs : List Char} (h : HasItems rest cs) :
    quotesEscaped false cs = quotesEscaped false rest := by
  induction h with
  | done => rfl
  | plain hquote hbackslash _ ih => rw [quotesEscaped, if_neg hbackslash, if_neg hquote, ih]
  | escape _ ih => exact ih

/-- A backslash is left over just if it makes an item with the quote behind it. -/
theorem hasItems_backslash_iff {cs : List Char} : HasItems ['\\'] cs ↔ IsBody (cs ++ ['"']) := by
  constructor
  · intro h
    induction h with
    | done => exact .escape .done
    | plain hquote hbackslash _ ih => exact .plain hquote hbackslash ih
    | escape _ ih => exact .escape ih
  · obtain ⟨ds, hds⟩ : ∃ ds, ds = cs ++ ['"'] := ⟨_, rfl⟩
    rw [← hds]
    intro h
    induction h generalizing cs with
    | done => exact absurd hds.symm (List.concat_ne_nil '"' cs)
    | @plain c _ hquote hbackslash _ ih =>
      cases cs with
      | nil => exact absurd (List.cons.inj hds).1 hquote
      | cons d cs =>
        obtain ⟨rfl, hrest⟩ := List.cons.inj hds
        exact .plain hquote hbackslash (ih hrest)
    | escape _ ih =>
      match cs, hds with
      | [d], hds =>
        obtain ⟨rfl, -⟩ := List.cons.inj hds
        exact .done
      | d :: e :: cs, hds =>
        obtain ⟨rfl, hbehind⟩ := List.cons.inj hds
        obtain ⟨rfl, hrest⟩ := List.cons.inj hbehind
        exact .escape (ih hrest)

/-- Every quote stands behind a backslash just if there are items, and then nothing or a backslash that
is left over. -/
theorem quotesEscaped_iff {cs : List Char} :
    quotesEscaped false cs = true ↔ IsBody cs ∨ IsBody (cs ++ ['"']) := by
  rw [← hasItems_backslash_iff]
  constructor
  · -- a backslash in front of what is read belongs to its first item
    have hitems : ∀ escaped, quotesEscaped escaped cs = true →
        let items := if escaped then '\\' :: cs else cs
        IsBody items ∨ HasItems ['\\'] items := by
      intro escaped
      fun_induction quotesEscaped escaped cs with
      | case1 escaped =>
        intro _
        cases escaped with
        | false => exact .inl .done
        | true => exact .inr .done
      | case2 c cs ih => exact fun h => (ih h).imp .escape .escape
      | case3 cs ih => exact fun h => ih h
      | case4 => exact nofun
      | case5 c cs hbackslash hquote ih =>
        exact fun h => (ih h).imp (.plain hquote hbackslash) (.plain hquote hbackslash)
    exact hitems false
  · rintro (h | h)
    · rw [h.quotesEscaped_eq]
      rfl
    · rw [h.quotesEscaped_eq]
      rfl

/-- A text is taken for a literal just if it opens and closes with a quote and what follows the first one
consists of items up to the last one, or with the last one in an item. -/
theorem literalBody?_eq_some_iff {code body : String} : literalBody? code = some body ↔
    trim code.toList = '"' :: (body.toList ++ ['"']) ∧
      (IsBody body.toList ∨ IsBody (body.toList ++ ['"'])) := by
  rw [← quotesEscaped_iff]
  unfold literalBody? literalChars?
  constructor
  · intro h
    obtain ⟨chars, hchars, rfl⟩ := Option.map_eq_some_iff.1 h
    rw [String.toList_ofList]
    split at hchars
    · next rest htrim =>
      split at hchars
      · next htest =>
        obtain rfl := Option.some_inj.1 hchars
        obtain ⟨hlast, hquotes⟩ := Bool.and_eq_true_iff.1 htest
        obtain ⟨inner, rfl⟩ := List.getLast?_eq_some_iff.1 (eq_of_beq hlast)
        rw [List.dropLast_concat] at hquotes ⊢
        exact ⟨htrim, hquotes⟩
      · cases hchars
    · cases hchars
  · rintro ⟨htrim, hquotes⟩
    simp only [htrim, List.getLast?_concat, List.dropLast_concat, hquotes, beq_self_eq_true,
      Bool.and_self, if_true, Option.map_some, String.ofList_toList]

/-! ## Backslashes at the end -/

/-- How many backslashes the characters end with. -/
def backslashes (cs : List Char) : Nat := (cs.rtakeWhile (· == '\\')).length

theorem backslashes_of_all {cs : List Char} (h : ∀ c ∈ cs, (c == '\\') = true) :
    backslashes cs = cs.length := by
  rw [backslashes, List.rtakeWhile_eq_self_iff.2 h]

/-- In front of anything else than backslashes a character is not looked at. -/
theorem backslashes_cons {cs : List Char} {c : Char} (h : c ≠ '\\' ∨ ∃ d ∈ cs, d ≠ '\\') :
    backslashes (c :: cs) = backslashes cs := by
  have htake : (cs.reverse ++ [c]).takeWhile (· == '\\') = cs.reverse.takeWhile (· == '\\') := by
    rw [List.takeWhile_append]
    split
    · next hlength =>
      have hall : ∀ d ∈ cs, (d == '\\') = true := by
        have hwhole := (List.takeWhile_prefix (· == '\\') (l := cs.reverse)).eq_of_length hlength
        exact fun d hd => List.takeWhile_eq_self_iff.1 hwhole d (List.mem_reverse.2 hd)
      have hc : c ≠ '\\' := by
        rcases h with h | ⟨d, hd, hne⟩
        · exact h
        · exact absurd (eq_of_beq (hall d hd)) hne
      rw [List.takeWhile_cons_of_neg (by simpa using hc), List.append_nil,
        List.takeWhile_eq_self_iff.2 fun d hd => hall d (List.mem_reverse.1 hd)]
    · rfl
  rw [backslashes, backslashes, List.rtakeWhile, List.rtakeWhile, List.reverse_cons, htake]

/-- An escape takes two of the backslashes or none. -/
theorem even_backslashes_escape (c : Char) (cs : List Char) :
    Even (backslashes ('\\' :: c :: cs)) ↔ Even (backslashes cs) := by
  by_cases hothers : ∃ d ∈ cs, d ≠ '\\'
  · obtain ⟨d, hd, hne⟩ := hothers
    rw [backslashes_cons (.inr ⟨d, List.mem_cons_of_mem c hd, hne⟩), backslashes_cons (.inr ⟨d, hd, hne⟩)]
  · have hall : ∀ d ∈ cs, (d == '\\') = true := fun d hd =>
      beq_iff_eq.2 (not_not.1 fun hne => hothers ⟨d, hd, hne⟩)
    by_cases hc : c = '\\'
    · subst hc
      rw [backslashes_of_all hall, backslashes_of_all]
      · simp only [List.length_cons, Nat.even_add_one, not_not]
      · exact List.forall_mem_cons.2 ⟨rfl, List.forall_mem_cons.2 ⟨rfl, hall⟩⟩
    · rw [backslashes_cons (.inr ⟨c, List.mem_cons_self, hc⟩), backslashes_cons (.inl hc)]

theorem HasItems.even_backslashes {rest cs : List Char} (h : HasItems rest cs) :
    Even (backslashes cs) ↔ Even (backslashes rest) := by
  induction h with
  | done => exact Iff.rfl
  | plain _ hbackslash _ ih => rw [backslashes_cons (.inl hbackslash), ih]
  | escape _ ih => rw [even_backslashes_escape, ih]

/-- What passes for the body of a literal is one just if it ends with an even number of backslashes. -/
theorem isBody_iff_even {cs : List Char} (h : IsBody cs ∨ IsBody (cs ++ ['"'])) :
    IsBody cs ↔ Even (backslashes cs) := by
  have heven : Even (backslashes []) := ⟨0, rfl⟩
  have hodd : ¬Even (backslashes ['\\']) := by decide
  refine ⟨fun hbody => hbody.even_backslashes.2 heven, fun hcount => h.resolve_right fun hleft => ?_⟩
  exact hodd ((hasItems_backslash_iff.2 hleft).even_backslashes.1 hcount)

theorem isBody_escape (cs : List Char) : IsBody (escape cs) := by
  induction cs with
  | nil => exact .done
  | cons c cs ih =>
    have hitem : IsBody (escapeChar c ++ escape cs) := by
      rcases escapeChar_cases c with ⟨hbare, hchar⟩ | ⟨letter, -, hchar⟩
      · simp only [isBare, Bool.and_eq_true, bne_iff_ne] at hbare
        obtain ⟨⟨⟨hbackslash, hquote⟩, -⟩, -⟩ := hbare
        rw [hchar]
        exact .plain hquote hbackslash ih
      · rw [hchar]
        exact .escape ih
    exact hitem

/-- A settled text that is a literal was quoted. -/
theorem IsSettled.isBody {text body : String} (h : IsSettled text)
    (hbody : literalBody? text = some body) : IsBody body.toList := by
  rcases h with ⟨s, rfl⟩ | hopen
  · rw [literalBody?_quote, Option.some_inj] at hbody
    rw [← hbody, String.toList_ofList]
    exact isBody_escape s.toList
  · rw [hopen.not_literal] at hbody
    cases hbody

end Text

open Text

namespace Project

variable {p : Project}

/-! ## Values -/

/-- Soundness is proved of code beside what the code shows of a diagnostic; any one will do for it. -/
theorem exists_isOneLine : ∃ d : Diagnostic, d.IsOneLine :=
  ⟨⟨.warning, "", "", "."⟩, by decide, '.', rfl, rfl, by decide⟩

/-- The code of every block is sound, whichever blocks are being made. -/
theorem emit_isSound (id : BlockId) (s : Emission) (hs : s.Nested p.workspace) :
    (p.emit id s).1.IsSound := by
  obtain ⟨d, hd⟩ := exists_isOneLine
  refine (emit_induction (fun _ _ fragment _ => fragment.IsSound) ?_ ?_ ?_ id s hs).2
  · exact fun id s _ => ⟨isClosed_empty, nofun⟩
  · exact fun id b s _ _ => ⟨Emit.isClosed_comment _, nofun⟩
  · intro id b s es fragment t _ _ htook hsteps
    exact isSound_of_took hd htook fun j g hmem =>
      hsteps.forall_made (P := fun _ g => g.IsSound) (fun _ _ _ _ h => h) hmem

/-- The value of a socket is settled. -/
theorem isSettled_value (b : Block) (socket : String) (outer : Precedence) (s : Emission)
    (hs : s.Nested p.workspace) : IsSettled (p.run (Emit.value p b socket outer) s).1 := by
  obtain ⟨d, hd⟩ := exists_isOneLine
  obtain ⟨es, hpath, hsteps⟩ := run_steps (fun _ _ fragment _ => fragment.IsSound) hs
    (fun id t ht _ => emit_isSound id t ht) (Emit.value p b socket outer)
  -- nothing is asked about what the code tells of the diagnostic
  have hconveys : Emit.BlockConveys p b d False IsSettled (fun text => False ∨ d.IsCited text)
      (Emit.value p b socket outer) := Emit.value_conveys p b hd socket outer
  refine (hconveys es _ hpath ?_).1
  exact fun j g hmem => hsteps.forall_made (P := fun _ g => g.IsSound) (fun _ _ _ _ h => h) hmem

end Project

/-- A text passes for a literal with a body just if it is the body between two quotes, with blanks around
it or not, and the body consists of items, or it escapes the quote behind it and consists of items together
with that quote. The body of what passes consists of items just if it ends with an even number of
backslashes. The values that are read from the sockets of blocks pass with no other body. -/
theorem Text.literalBody?_closes_iff (code body : String) :
    (literalBody? code = some body ↔ trim code.toList = '"' :: (body.toList ++ ['"']) ∧
      (IsBody body.toList ∨ IsBody (body.toList ++ ['"']))) ∧
    (literalBody? code = some body → (IsBody body.toList ↔ Even (backslashes body.toList))) ∧
    ∀ (p : Project) b socket outer s, s.Nested p.workspace →
      (p.run (Emit.value p b socket outer) s).1 = code → literalBody? code = some body →
      IsBody body.toList := by
  refine ⟨literalBody?_eq_some_iff, fun h => isBody_iff_even (literalBody?_eq_some_iff.1 h).2, ?_⟩
  rintro p b socket outer s hs rfl hbody
  exact (Project.isSettled_value b socket outer s hs).isBody hbody

/-- Two quotes with one backslash in between pass for a literal. -/
theorem Text.literalBody?_closes_iff_escaped :
    literalBody? "\"\\\"" = some "\\" ∧ ¬IsBody "\\".toList := by
  obtain ⟨hpasses, hcount, -⟩ := literalBody?_closes_iff "\"\\\"" "\\"
  have hbody : literalBody? "\"\\\"" = some "\\" := hpasses.2 ⟨by decide, .inr (.escape .done)⟩
  exact ⟨hbody, fun hitems => absurd ((hcount hbody).1 hitems) (by decide)⟩

end BlockCompiler
