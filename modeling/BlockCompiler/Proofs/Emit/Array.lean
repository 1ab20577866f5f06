import BlockCompiler.Proofs.Emit.Subscript

set_option autoImplicit false

/-! # Array accesses

Array blocks count with the size that the first initializer in program order asks for: they keep
literal subscripts below it and copy no more values than it allows. What they write so fits an array
of that size. -/

namespace BlockCompiler.Emit

open Recipe Text

/-- An access to an array, as the code of a block of a kind writes it, and the sizes that it fits. A
subscript counts if it is written in decimal digits. -/
inductive Access (name : String) : Kind → Fragment → (Int → Prop) → Prop where
  | get (k : Int) (order : Precedence) :
    Access name .arrayGet (.expression ⟨name ++ "[" ++ toString k ++ "]", order⟩)
      fun size => 0 ≤ k ∧ k < size
  | set (k : Int) (rest : String) :
    Access name .arraySet (.statement (name ++ "[" ++ toString k ++ "] = " ++ rest))
      fun size => 0 ≤ k ∧ k < size
  | fill (front temp : String) (n : Nat) :
    Access name .arrayFill (.statement (front ++ "memcpy(" ++ name ++ ", " ++ temp ++ ", " ++
      toString n ++ " * sizeof(int));\n")) fun size => n ≤ size
  | clear :
    Access name .arrayClear (.statement ("memset(" ++ name ++ ", 0, sizeof " ++ name ++ ");\n"))
      fun _ => True

variable {p : Project} {b : Block}

/-! ## Sizes -/

/-- An array has an element. -/
theorem one_le_arraySize (text : String) : 1 ≤ arraySize text := by
  unfold arraySize
  split
  · exact (clamp_mem (by decide) _).1
  · decide

theorem one_le_initializedSize? {name : String} {size : Int}
    (h : initializedSize? p name = some size) : 1 ≤ size := by
  obtain ⟨init, -, rfl⟩ := Option.map_eq_some_iff.1 h
  exact one_le_arraySize _

/-! ## Subscripts -/

/-- A subscript for an array of a size: a number inside the array, or a text that is no number. -/
def IsInside (size : Int) (index : String) : Prop :=
  (∃ k : Int, 0 ≤ k ∧ k < size ∧ index = toString k) ∨ (IsIndex index ∧ intLiteral? index = none)

theorem IsInside.of_bracket {size k : Int} {index : String} {rest rest' : List Char}
    (h : IsInside size index)
    (heq : index.toList ++ ']' :: rest = (toString k).toList ++ ']' :: rest') :
    0 ≤ k ∧ k < size := by
  rcases h with ⟨n, hlow, hhigh, rfl⟩ | ⟨hindex, hnone⟩
  · have hchars := eq_of_numerals (fun c => isNumeral_of_mem_toString)
      (fun c => isNumeral_of_mem_toString) (by decide) heq
    rw [← toString_inj hchars]
    exact ⟨hlow, hhigh⟩
  · obtain ⟨-, hsome⟩ := hindex.eq_of_bracket heq
    rw [hnone] at hsome
    cases hsome

theorem arrayIndex_isInside {size : Int} (hsize : 1 ≤ size) :
    (arrayIndex p b size).Returns Fragment.IsIndex (IsInside size) := by
  refine (value_isIndex p b "NUM" .anything).bind fun text htext => ?_
  split
  · next n _ =>
    obtain ⟨hlow, hhigh⟩ := clamp_mem (show 0 ≤ size - 1 by omega) n
    exact .pure (.inl ⟨_, hlow, by omega, rfl⟩)
  · next hnone => exact .pure (.inr ⟨htext, hnone⟩)

/-- A text is a comment, or it starts with an element whose subscript is inside the array. -/
def IsElement (p : Project) (name text : String) : Prop :=
  text.toList.head? = some '/' ∨ ∃ size index rest, initializedSize? p name = some size ∧
    IsInside size index ∧ text = name ++ "[" ++ index ++ "]" ++ rest

theorem head?_variableName_ne : (variableName p b).toList.head? ≠ some '/' := by
  obtain ⟨hword, c, rest, hname, -⟩ := Expression.isName_ofName (p.field b "VAR")
  have hc : Identifier.isWordChar c = true := List.all_eq_true.1 hword c (hname ▸ List.mem_cons_self)
  rw [variableName, hname]
  rintro ⟨⟩
  exact absurd hc (by decide)

theorem IsElement.bounds {k : Int} {text : String} (h : IsElement p (variableName p b) text)
    (rest : String) (heq : text = variableName p b ++ "[" ++ toString k ++ "]" ++ rest) :
    ∃ size, initializedSize? p (variableName p b) = some size ∧ 0 ≤ k ∧ k < size := by
  rcases h with hcomment | ⟨size, index, rest', hsize, hinside, htext⟩
  · -- a name does not start as a comment does
    rw [heq] at hcomment
    simp only [String.toList_append, List.append_assoc, List.head?_append] at hcomment
    obtain ⟨-, c, cs, hname, -⟩ := Expression.isName_ofName (p.field b "VAR")
    have hhead := head?_variableName_ne (p := p) (b := b)
    rw [variableName, hname] at hhead hcomment
    exact absurd hcomment hhead
  · refine ⟨size, hsize, ?_⟩
    have hchars := congrArg String.toList (htext.symm.trans heq)
    simp only [String.toList_append, List.append_assoc] at hchars
    exact hinside.of_bracket (List.append_cancel_left (List.append_cancel_left hchars))

theorem uninitialized_returns {made : Fragment → Prop} (name : String) :
    (uninitialized b name).Returns made fun line =>
      line = (Diagnostic.mk .error b.id b.type
        ("The array \"" ++ name ++ "\" has not been initialized!")).comment :=
  Returns.diagnose _ _ _

theorem arrayGet_isElement :
    (arrayGet p b).Returns Fragment.IsIndex fun o => IsElement p (variableName p b) o.text := by
  unfold arrayGet
  dsimp only
  split
  · exact (Returns.any _).bind fun line _ => .pure (.inl (Comment.head?_beforeValue _ _))
  · next size hsize =>
    refine (arrayIndex_isInside (one_le_initializedSize? hsize)).bind fun index hindex => ?_
    exact .pure (.inr ⟨size, index, "", hsize, hindex, String.append_empty.symm⟩)

theorem arraySet_isElement :
    (arraySet p b).Returns Fragment.IsIndex (IsElement p (variableName p b)) := by
  unfold arraySet
  dsimp only
  split
  · refine (uninitialized_returns _).mono ?_
    rintro _ rfl
    exact .inl (Diagnostic.head?_comment _)
  · next size hsize =>
    refine (arrayIndex_isInside (one_le_initializedSize? hsize)).bind fun index hindex => ?_
    refine (Returns.any _).bind fun text _ => .pure (.inr ⟨size, index, ?_, hsize, hindex, ?_⟩)
    · exact " = " ++ text ++ ";\n"
    · apply String.toList_injective
      simp [String.toList_append]

/-! ## Whole arrays -/

/-- The last character of a text in front of the line feed that ends it. -/
def lineEnd? (text : String) : Option Char := text.toList.dropLast.getLast?

theorem lineEnd?_append (text : String) {last : String} {c : Char} (h : last.toList.getLast? = some c) :
    lineEnd? (text ++ last ++ "\n") = some c := by
  have hchars : (text ++ last ++ "\n").toList = (text.toList ++ last.toList) ++ ['\n'] := by
    rw [String.toList_append, String.toList_append]
    rfl
  rw [lineEnd?, hchars, List.dropLast_concat, List.getLast?_append, h]
  rfl

theorem lineEnd?_comment (severity : Severity) (about : Block) (message : String) {last : String}
    {c : Char} (h : last.toList.getLast? = some c) :
    lineEnd? (Diagnostic.mk severity about.id about.type (message ++ last)).comment = some c := by
  unfold Diagnostic.comment
  rw [← String.append_assoc]
  exact lineEnd?_append _ h

/-- A text is a comment, or it ends with a copy of no more values than the array holds. -/
def IsCopy (p : Project) (name text : String) : Prop :=
  lineEnd? text ≠ some ';' ∨ ∃ size front temp, ∃ n : Nat, initializedSize? p name = some size ∧
    n ≤ size ∧ text = front ++ "memcpy(" ++ name ++ ", " ++ temp ++ ", " ++ toString n ++
      " * sizeof(int));\n"

theorem isCopy_of_le {name front temp : String} {size : Int} {n : Nat}
    (hsize : initializedSize? p name = some size) (hle : n ≤ size) :
    IsCopy p name (front ++ "\x7d;\nmemcpy(" ++ name ++ ", " ++ temp ++ ", " ++ toString n ++
      " * sizeof(int));\n") := by
  have hsplit : "\x7d;\nmemcpy(" = "\x7d;\n" ++ "memcpy(" := by decide
  rw [hsplit, ← String.append_assoc]
  exact .inr ⟨size, _, temp, n, hsize, hle, rfl⟩

theorem IsCopy.bound {name text front temp : String} {n : Nat} (h : IsCopy p name text)
    (heq : text = front ++ "memcpy(" ++ name ++ ", " ++ temp ++ ", " ++ toString n ++
      " * sizeof(int));\n") : ∃ size, initializedSize? p name = some size ∧ n ≤ size := by
  have hlast : " * sizeof(int));\n" = " * sizeof(int));" ++ "\n" := by decide
  rcases h with hcomment | ⟨size, front', temp', n', hsize, hle, htext⟩
  · refine absurd ?_ hcomment
    rw [heq, hlast, ← String.append_assoc]
    exact lineEnd?_append _ rfl
  · -- the number of values is what stands behind the last blank but one
    have hcount := (String.append_left_inj _).1 (htext.symm.trans heq)
    have hfront : ∀ start : String, ∀ m : Nat, (start ++ ", " ++ toString m).toList =
        (start.toList ++ [',']) ++ ' ' :: (toString (m : Int)).toList := by
      intro start m
      simp only [String.toList_append, List.append_assoc]
      rfl
    have hchars := congrArg String.toList hcount
    rw [hfront, hfront] at hchars
    have hsame := eq_of_numerals_behind (fun c => isNumeral_of_mem_toString)
      (fun c => isNumeral_of_mem_toString) (by decide) hchars
    exact ⟨size, hsize, by have := toString_inj hsame; omega⟩

theorem arrayFill_isCopy :
    (arrayFill p b).Returns Fragment.IsIndex (IsCopy p (variableName p b)) := by
  unfold arrayFill
  dsimp only
  split
  · refine (uninitialized_returns _).mono ?_
    rintro _ rfl
    refine .inl ?_
    rw [lineEnd?_comment (c := '!') .error b _ rfl]
    decide
  · next size hsize =>
    split
    · refine (Returns.diagnose _ _ _).mono ?_
      rintro _ rfl
      refine .inl ?_
      rw [lineEnd?_comment (c := '.') .warning b _ rfl]
      decide
    · refine (Returns.any _).bind fun line _ => (Returns.any _).bind fun _ _ => ?_
      refine (Returns.any _).bind fun temp _ => .pure ?_
      have hlength : ((listedValues (p.field b "NUM")).take size.toNat).length ≤ size := by
        have hone := one_le_initializedSize? hsize
        rw [List.length_take]
        omega
      exact isCopy_of_le hsize hlength

/-- The array has an initializer if it is cleared. -/
def IsCleared (p : Project) (name text : String) : Prop :=
  text.toList.head? = some '/' ∨ ∃ size, initializedSize? p name = some size

theorem arrayClear_isCleared :
    (arrayClear p b).Returns Fragment.IsIndex (IsCleared p (variableName p b)) := by
  unfold arrayClear
  dsimp only
  split
  · refine (uninitialized_returns _).mono ?_
    rintro _ rfl
    exact .inl (Diagnostic.head?_comment _)
  · next size hsize => exact (Returns.any _).bind fun _ _ => .pure (.inr ⟨size, hsize⟩)

/-! ## Accesses -/

/-- Every access fits the size that array blocks count with. -/
theorem Access.fits_initializedSize {id : BlockId} {kind : Kind} {fragment : Fragment}
    {fits : Int → Prop} {es : List Event} (h : Access (variableName p b) kind fragment fits)
    (hkind : Kind.ofName? b.type = some kind) (hpath : (recipe p id b).Path es fragment)
    (hmade : ∀ j g, .made j g ∈ es → g.IsIndex) :
    ∃ size, initializedSize? p (variableName p b) = some size ∧ fits size := by
  rw [recipe_of_kind hkind] at hpath
  cases h with
  | get k order =>
    obtain ⟨es₁, o, es₂, rfl, hcode, hpure⟩ := hpath.of_bind
    obtain ⟨rfl, ho⟩ := hpure.of_pure
    rw [List.append_nil] at hmade
    refine (arrayGet_isElement es₁ o hcode hmade).bounds "" ?_
    rw [← Fragment.expression.inj ho, String.append_empty]
  | set k rest =>
    obtain ⟨es₁, text, es₂, rfl, hcode, hpure⟩ := hpath.of_bind
    obtain ⟨rfl, htext⟩ := hpure.of_pure
    rw [List.append_nil] at hmade
    have hsplit : "] = " = "]" ++ " = " := by decide
    refine (arraySet_isElement es₁ text hcode hmade).bounds (" = " ++ rest) ?_
    rw [← Fragment.statement.inj htext, hsplit, ← String.append_assoc, ← String.append_assoc]
  | fill front temp n =>
    obtain ⟨es₁, text, es₂, rfl, hcode, hpure⟩ := hpath.of_bind
    obtain ⟨rfl, htext⟩ := hpure.of_pure
    rw [List.append_nil] at hmade
    exact (arrayFill_isCopy es₁ text hcode hmade).bound (Fragment.statement.inj htext).symm
  | clear =>
    obtain ⟨es₁, text, es₂, rfl, hcode, hpure⟩ := hpath.of_bind
    obtain ⟨rfl, htext⟩ := hpure.of_pure
    rw [List.append_nil] at hmade
    rcases arrayClear_isCleared es₁ text hcode hmade with hcomment | ⟨size, hsize⟩
    · rw [← Fragment.statement.inj htext, String.append_assoc, String.append_assoc,
        String.append_assoc, String.toList_append] at hcomment
      cases hcomment
    · exact ⟨size, hsize, trivial⟩

end BlockCompiler.Emit
