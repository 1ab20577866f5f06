import BlockCompiler.Proofs.Emit.Peripheral
import BlockCompiler.Proofs.Emit.Subscript
import BlockCompiler.Proofs.Text.Quoted

set_option autoImplicit false

/-! # Calls that fill buffers

Three calls write text into a variable: one that reads a file, one that reads the memory, and one that
copies a text. A block whose code is such a call has made its variable a buffer, or found it to be one,
and has asked for the room that its code tells of. -/

namespace BlockCompiler

/-! ## Texts that are read back -/

namespace Text

/-- An index that is written in decimal digits is read as the number. -/
theorem IsIndex.intLiteral?_eq {n : Nat} (h : IsIndex (toString n)) :
    intLiteral? (toString n) = some (n : Int) := by
  have hn : toString n = toString (n : Int) := rfl
  rcases h with hapart | ⟨-, hread⟩
  · -- nothing stands behind the digits
    have hnumeral : ∀ c ∈ (toString n).toList, isNumeral c = true := fun c hc =>
      isNumeral_of_mem_toString (hn ▸ hc)
    rw [IsApart, List.dropWhile_eq_nil_iff.2 hnumeral] at hapart
    cases hapart
  · rw [hn] at hread ⊢
    exact intLiteral?_toString_of_isSome hread

end Text

open Text

/-- Where one text goes on with a mark behind its first word, the other has the same mark there. -/
theorem Identifier.mark_eq_of_words {front front' rest rest' : List Char} {c c' : Char}
    (hfront : front.all isWordChar = true) (hfront' : front'.all isWordChar = true)
    (hc : isWordChar c = false) (hc' : isWordChar c' = false)
    (h : front ++ c :: rest = front' ++ c' :: rest') : c = c' := by
  have hdrop := congrArg (List.dropWhile isWordChar) h
  rw [List.dropWhile_append_of_pos (List.all_eq_true.1 hfront),
    List.dropWhile_append_of_pos (List.all_eq_true.1 hfront'),
    List.dropWhile_cons_of_neg (by simp [hc]), List.dropWhile_cons_of_neg (by simp [hc'])] at hdrop
  exact (List.cons.inj hdrop).1

namespace Emit

/-! ## Calls -/

/-- The code of a block of a kind fills the variable `name` with text, for which the variable needs
`room` characters as far as the code tells. -/
inductive Fills (name : String) : Kind → String → Nat → Prop
  | read (n : Nat) : 0 < n →
    Fills name .fileRead ("fread(" ++ name ++ ", 1, " ++ toString n ++ ", fp);\n") (n + 1)
  | readComputed (size : String) :
    Fills name .fileRead ("fread(" ++ name ++ ", 1, " ++ size ++ ", fp);\n") 0
  | load (address : String) :
    Fills name .memoryRead ("ee_getStr(" ++ name ++ ", 128, " ++ address ++ ");\n") 128
  | copy (body : String) : quotesEscaped false body.toList = true →
    Fills name .assign ("strcpy(" ++ name ++ ", " ++ ("\"" ++ body ++ "\"") ++ ");\n")
      (literalLength body + 1)
  | copyComputed (text : String) :
    Fills name .assign ("strcpy(" ++ name ++ ", " ++ text ++ ");\n") 0

/-- Along the events the variable `name` is made a buffer, or found to be one, and room for as many
characters is asked for. -/
structure Reserves (name : String) (room : Nat) (es : List Event) : Prop where
  typed : .did (.setType name .char) () ∈ es ∨ ∃ text, .did (.inferType name text) .char ∈ es
  sized : room = 0 ∨ ∃ length, room ≤ length ∧ .did (.setLength name length) () ∈ es

variable {p : Project} {b : Block} {es : List Event} {code : String} {room : Nat}

/-- What is assigned to a variable stands behind its name and a space, so that it is no call. -/
theorem assignment_ne_call {text call : String} (word rest : String)
    (hword : word.toList.all Identifier.isWordChar = true) (hcall : call = word ++ "(")
    (htext : text.toList.head? = some ' ') : variableName p b ++ text ≠ call ++ rest := by
  intro heq
  obtain ⟨cs, hcs⟩ : ∃ cs, text.toList = ' ' :: cs := List.head?_eq_some_iff.1 htext
  have hchars := congrArg String.toList heq
  rw [hcall, String.append_assoc, String.toList_append, String.toList_append, hcs,
    String.toList_append] at hchars
  have hname := (Expression.isName_ofName (p.field b "VAR")).word
  have hmark : ' ' = '(' :=
    Identifier.mark_eq_of_words hname hword (by decide) (by decide) hchars
  exact absurd hmark (by decide)

/-! ## Reads -/

theorem reserveRead_path {name size : String} {n : Nat} (hsize : intLiteral? size = some (n : Int))
    (hn : 0 < n) {answer : Unit} (hpath : (reserveRead name size).Path es answer) :
    es = [.did (.setLength name (n + 1)) ()] := by
  have hpositive : (0 : Int) < n := by omega
  rw [reserveRead, hsize] at hpath
  dsimp only at hpath
  rw [if_pos hpositive] at hpath
  exact hpath.of_perform

/-- A read from a file that is not refused makes the variable a buffer. -/
theorem fileRead_path (hpath : (fileRead p b).Path es code) (hclosed : ∀ e ∈ es, e.IsClosed) :
    (∃ d : Diagnostic, code = d.comment) ∨
    ∃ size sizing reserving, (value p b "SIZE" .anything).Path sizing size ∧
      (reserveRead (variableName p b) size).Path reserving () ∧ sizing ⊆ es ∧ reserving ⊆ es ∧
      .did (.setType (variableName p b) .char) () ∈ es ∧
      code = "fread(" ++ variableName p b ++ ", 1, " ++ size ++ ", fp);\n" := by
  obtain ⟨es₁, warning, es₂, rfl, hwarning, hrest⟩ := hpath.of_bind
  cases warning with
  | some line =>
    obtain ⟨-, rfl⟩ := hrest.of_pure
    have hproblem := fileWarning?_isProblem p b _ _ hwarning fun e he =>
      hclosed e (List.mem_append_left _ he)
    exact .inl (hproblem _ rfl)
  | none =>
    obtain ⟨sizing, size, es₃, rfl, hsize, hrest⟩ := hrest.of_bind
    obtain ⟨typing, _, es₄, rfl, htype, hrest⟩ := hrest.of_bind
    obtain ⟨reserving, _, es₅, rfl, hreserve, hpure⟩ := hrest.of_bind
    obtain ⟨rfl, rfl⟩ := hpure.of_pure
    obtain rfl := htype.of_perform
    refine .inr ⟨size, sizing, reserving, hsize, hreserve, ?_, ?_, ?_, rfl⟩
    · exact fun e he => by simp [he]
    · exact fun e he => by simp [he]
    · simp

theorem reserves_of_fileRead {size : String}
    (hpath : (fileRead p b).Path es ("fread(" ++ variableName p b ++ ", 1, " ++ size ++ ", fp);\n"))
    (hclosed : ∀ e ∈ es, e.IsClosed) (hindex : ∀ j g, .made j g ∈ es → g.IsIndex) :
    Reserves (variableName p b) 0 es ∧
      ∀ n : Nat, 0 < n → size = toString n → Reserves (variableName p b) (n + 1) es := by
  rcases fileRead_path hpath hclosed with
    ⟨d, hcomment⟩ | ⟨size', sizing, reserving, hvalue, hreserve, hsizing, hreserving, htyped, hcode⟩
  · exact absurd hcomment (Diagnostic.ne_comment (c := 'f') (by simp) (by decide) d)
  · obtain rfl := (String.append_right_inj _).1 ((String.append_left_inj _).1 hcode)
    refine ⟨⟨.inl htyped, .inl rfl⟩, fun n hn hsize => ⟨.inl htyped, .inr ⟨n + 1, Nat.le_refl _, ?_⟩⟩⟩
    subst hsize
    have hread : IsIndex (toString n) := value_isIndex p b "SIZE" .anything sizing _ hvalue
      fun j g hmade => hindex j g (hsizing hmade)
    rw [reserveRead_path hread.intLiteral?_eq hn hreserve] at hreserving
    exact hreserving List.mem_cons_self

/-- A read from the memory makes the variable a buffer for texts, and an integer otherwise. -/
theorem reserves_of_memoryRead {address : String} (hpath : (memoryRead p b).Path es
    ("ee_getStr(" ++ variableName p b ++ ", 128, " ++ address ++ ");\n")) :
    Reserves (variableName p b) 128 es := by
  obtain ⟨es₁, start, es₂, rfl, -, hread⟩ := hpath.of_bind
  cases hstored : Stored.ofField (p.field b "TYPE") with
  | number | byte =>
    rw [hstored] at hread
    obtain ⟨es₃, _, es₄, rfl, -, hpure⟩ := hread.of_bind
    obtain ⟨-, hcode⟩ := hpure.of_pure
    simp only [String.append_assoc] at hcode
    refine absurd hcode.symm (assignment_ne_call "ee_getStr" _ (by decide) rfl ?_)
    simp
  | text =>
    rw [hstored] at hread
    obtain ⟨es₃, _, es₄, rfl, htype, hrest⟩ := hread.of_bind
    obtain ⟨es₅, _, es₆, rfl, hlength, hpure⟩ := hrest.of_bind
    obtain rfl := htype.of_perform
    obtain rfl := hlength.of_perform
    exact ⟨.inl (by simp), .inr ⟨memoryTextLength, by decide, by simp⟩⟩

/-! ## Copies -/

/-- The type that a variable is found to have is given to it on the way. -/
theorem assignedType_path {name text : String} {type : CType}
    (hpath : (assignedType p name text).Path es type) (htype : type = .char) :
    .did (.setType name .char) () ∈ es ∨ ∃ text, .did (.inferType name text) .char ∈ es := by
  unfold assignedType at hpath
  split at hpath
  · obtain ⟨es₁, _, es₂, rfl, hset, -⟩ := hpath.of_bind
    obtain rfl := hset.of_perform
    exact .inl List.mem_cons_self
  · obtain rfl := hpath.of_perform
    subst htype
    exact .inr ⟨text, List.mem_cons_self⟩

theorem reserves_of_assign {text : String}
    (hpath : (assign p b).Path es ("strcpy(" ++ variableName p b ++ ", " ++ text ++ ");\n")) :
    Reserves (variableName p b) 0 es ∧ ∀ body, literalBody? text = some body →
      Reserves (variableName p b) (literalLength body + 1) es := by
  obtain ⟨es₁, found, es₂, rfl, -, hrest⟩ := hpath.of_bind
  obtain ⟨typing, type, es₃, rfl, htype, hrest⟩ := hrest.of_bind
  split at hrest
  · next hchar =>
    obtain ⟨es₄, _, es₅, rfl, -, hrest⟩ := hrest.of_bind
    obtain ⟨reserving, _, es₆, rfl, hreserve, hpure⟩ := hrest.of_bind
    obtain ⟨rfl, hcode⟩ := hpure.of_pure
    obtain rfl := (String.append_right_inj _).1 ((String.append_left_inj _).1 hcode)
    have htyped := assignedType_path htype hchar
    refine ⟨⟨?_, .inl rfl⟩, fun body hbody => ⟨?_, .inr ⟨_, Nat.le_refl _, ?_⟩⟩⟩
    · grind
    · grind
    · rw [reserveLiteral, hbody] at hreserve
      obtain rfl := hreserve.of_perform
      simp
  · obtain ⟨-, hcode⟩ := hrest.of_pure
    simp only [String.append_assoc] at hcode
    refine absurd hcode.symm (assignment_ne_call "strcpy" _ (by decide) rfl ?_)
    simp

/-- A block whose code fills its variable has made it a buffer that has room for what it is filled
with. -/
theorem reserves_of_fills {id : BlockId} {kind : Kind} (hkind : Kind.ofName? b.type = some kind)
    (hpath : (recipe p id b).Path es (.statement code)) (hclosed : ∀ e ∈ es, e.IsClosed)
    (hindex : ∀ j g, .made j g ∈ es → g.IsIndex) (h : Fills (variableName p b) kind code room) :
    Reserves (variableName p b) room es := by
  rw [recipe_of_kind hkind] at hpath
  cases h with
  | read n hn =>
    obtain ⟨_, ⟨⟩, hcode⟩ := path_of_statement hpath
    exact (reserves_of_fileRead hcode hclosed hindex).2 n hn rfl
  | readComputed size =>
    obtain ⟨_, ⟨⟩, hcode⟩ := path_of_statement hpath
    exact (reserves_of_fileRead hcode hclosed hindex).1
  | load address =>
    obtain ⟨_, ⟨⟩, hcode⟩ := path_of_statement hpath
    exact reserves_of_memoryRead hcode
  | copy body hbody =>
    obtain ⟨_, ⟨⟩, hcode⟩ := path_of_statement hpath
    exact (reserves_of_assign hcode).2 body (literalBody?_of_quotes hbody)
  | copyComputed text =>
    obtain ⟨_, ⟨⟩, hcode⟩ := path_of_statement hpath
    exact (reserves_of_assign hcode).1

end Emit

end BlockCompiler
