import BlockCompiler.Proofs.Emit.Socket

set_option autoImplicit false

/-! # Values, variables and memory: what the recipes read and do -/

namespace BlockCompiler.Emit

variable (p : Project) (b : Block)

/-! ## Operators -/

section Operators

variable {kind : Kind}

theorem binary_reads (sign : String) (order : Precedence) :
    Reads p b kind [.value "A", .value "B"] (fun _ => True) (binary p b sign order) := by
  refine (value_reads p b kind "A" order).bind fun left => ?_
  exact (value_reads p b kind "B" order).bind fun right => .pure trivial

theorem arithmetic_reads :
    Reads p b .arithmetic (slots b .arithmetic) (fun _ => True) (arithmetic p b) := by
  unfold arithmetic
  split
  · exact binary_reads p b "-" .additive
  · exact binary_reads p b "*" .multiplicative
  · exact binary_reads p b "/" .multiplicative
  · exact binary_reads p b "%" .multiplicative
  · refine (value_reads p b .arithmetic "A" .anything).bind fun base => ?_
    exact (value_reads p b .arithmetic "B" .anything).bind fun exponent => .pure trivial
  · exact binary_reads p b "+" .additive

theorem limit_reads : Reads p b .limit (slots b .limit) (fun _ => True) (limit p b) := by
  refine (value_reads p b .limit "A" .relational).bind fun left => ?_
  exact (value_reads p b .limit "B" .relational).bind fun right => .pure trivial

theorem random_reads : Reads p b .random (slots b .random) (fun _ => True) (random p b) := by
  refine (Reads.ensure (.own _ List.mem_cons_self (by simp [fixedTexts]))).bind fun _ => ?_
  refine (value_reads p b .random "A" .additive).bind fun low => ?_
  exact (value_reads p b .random "B" .additive).bind fun high => .pure trivial

theorem compare_reads : Reads p b .compare (slots b .compare) (fun _ => True) (compare p b) := by
  unfold compare
  split
  · exact binary_reads p b "!=" .equality
  · exact binary_reads p b "<" .relational
  · exact binary_reads p b "<=" .relational
  · exact binary_reads p b ">" .relational
  · exact binary_reads p b ">=" .relational
  · exact binary_reads p b "==" .equality

theorem logic_reads : Reads p b .logic (slots b .logic) (fun _ => True) (logic p b) := by
  unfold logic
  split
  · exact binary_reads p b "||" .logicalOr
  · exact binary_reads p b "&&" .logicalAnd

theorem negate_reads : Reads p b .negate (slots b .negate) (fun _ => True) (negate p b) :=
  (value_reads p b .negate "BOOL" .unaryPrefix).bind fun _ => .pure trivial

end Operators

/-! ## Variables -/

section Variables

variable {kind : Kind}

theorem stepVariable_reads : Reads p b kind [] Text.IsClosed (stepVariable p b) :=
  .pure (Text.IsClosed.of_end _ rfl)

theorem includeStrings_reads (h : (.includes, "string") ∈ ownKeys kind) :
    Reads p b kind [] (fun _ => True) includeStrings :=
  .ensure (.own _ h (by simp [fixedTexts]))

theorem assignedType_reads (text : String) :
    Reads p b .assign [] (fun _ => True) (assignedType p (variableName p b) text) := by
  unfold assignedType
  split
  · next hbuffer =>
    have hgiven : givenType? p b .assign = some .char := if_pos hbuffer
    exact (Reads.perform (.setType hgiven)).bind fun _ => .pure trivial
  · exact .perform (.inferType text)

theorem reserveLiteral_reads (text : String) :
    Reads p b kind [] (fun _ => True) (reserveLiteral (variableName p b) text) := by
  unfold reserveLiteral
  split
  · exact .perform (.setLength _)
  · exact .pure trivial

theorem assign_reads : Reads p b .assign (slots b .assign) Text.IsClosed (assign p b) := by
  refine (value_reads p b .assign "VALUE" .assignment).bind fun text => ?_
  refine (assignedType_reads p b text).bind fun type => ?_
  split
  · refine (includeStrings_reads p b List.mem_cons_self).bind fun _ => ?_
    refine (reserveLiteral_reads p b text).bind fun _ => .pure ?_
    exact .of_end _ rfl
  · exact .pure (Text.IsClosed.of_end _ rfl)

end Variables

/-! ## Arrays -/

theorem arrayIndex_reads {kind : Kind} (size : Int) :
    Reads p b kind [.value "NUM"] (fun _ => True) (arrayIndex p b size) := by
  refine (value_reads p b kind "NUM" .anything).bind fun text => ?_
  split
  · exact .pure trivial
  · exact .pure trivial

theorem arrayInit_reads : Reads p b .arrayInit [] Text.IsClosed (arrayInit p b) := by
  refine (Reads.register (.array _ rfl)).bind fun isNew => ?_
  split
  · exact .warning (.arrayTwice _)
  · exact .pure Text.isClosed_empty

theorem arrayGet_reads :
    Reads p b .arrayGet (slots b .arrayGet) (fun _ => True) (arrayGet p b) := by
  unfold arrayGet
  dsimp only
  split
  · exact Reads.of_nil ((Reads.error (.arrayMissing _)).bind fun _ => .pure trivial) _
  · exact (arrayIndex_reads p b _).bind fun _ => .pure trivial

theorem arraySet_reads : Reads p b .arraySet (slots b .arraySet) Text.IsClosed (arraySet p b) := by
  unfold arraySet
  dsimp only
  split
  · exact Reads.of_nil (.error (.arrayMissing _)) _
  · refine (arrayIndex_reads p b _).bind fun index => ?_
    refine (value_reads p b .arraySet "VALUE" .assignment).bind fun text => .pure ?_
    exact .of_end _ rfl

theorem overflowWarning_reads (name : String) (size : Int) (count : Nat) :
    Reads p b .arrayFill [] Text.IsClosed (overflowWarning b name size count) := by
  unfold overflowWarning
  split
  · exact .warning (.arrayFull name size)
  · exact .pure Text.isClosed_empty

theorem arrayFill_reads : Reads p b .arrayFill [] Text.IsClosed (arrayFill p b) := by
  unfold arrayFill
  dsimp only
  split
  · exact .error (.arrayMissing _)
  · split
    · exact .warning (.noList _)
    · refine (overflowWarning_reads p b _ _ _).bind fun line => ?_
      refine (includeStrings_reads p b List.mem_cons_self).bind fun _ => ?_
      exact (Reads.freshName "tmpArr").bind fun temp => .pure (Text.IsClosed.of_end _ rfl)

theorem arrayClear_reads : Reads p b .arrayClear [] Text.IsClosed (arrayClear p b) := by
  unfold arrayClear
  dsimp only
  split
  · exact .error (.arrayMissing _)
  · refine (includeStrings_reads p b List.mem_cons_self).bind fun _ => .pure ?_
    exact .of_end _ rfl

/-! ## Texts -/

theorem comment_reads : Reads p b .comment [] Text.IsClosed (comment p b) :=
  .pure (Text.IsClosed.of_end _ rfl)

theorem isClosed_closeLine (text : String) : Text.IsClosed (Text.closeLine text) := by
  unfold Text.closeLine
  split
  · exact .inr ‹_›
  · exact Text.isClosed_newline text

theorem customCode_reads : Reads p b .customCode [] Text.IsClosed (customCode p b) := by
  unfold customCode
  dsimp only
  split
  · next part hpart =>
    exact (Reads.ensure (.snippet _ rfl hpart)).bind fun _ => .pure Text.isClosed_empty
  · refine .pure ?_
    split
    · exact Text.isClosed_empty
    · exact isClosed_closeLine _

theorem print_reads : Reads p b .print (slots b .print) Text.IsClosed (print p b) := by
  refine (value_reads p b .print "MESSAGE" .anything).bind fun message => ?_
  split
  · exact .pure (Text.IsClosed.of_end _ rfl)
  · exact .pure (Text.IsClosed.of_end _ rfl)

theorem printValue_reads :
    Reads p b .printValue (slots b .printValue) Text.IsClosed (printValue p b) :=
  (value_reads p b .printValue "VALUE" .anything).bind fun _ =>
    .pure (Text.IsClosed.of_end _ rfl)

theorem printNewline_reads : Reads p b .printNewline [] Text.IsClosed printNewline :=
  .pure (.inr rfl)

/-! ## Memory -/

theorem memoryAddress_reads {kind : Kind}
    (h : (.globals, "constrain_function") ∈ ownKeys kind) :
    Reads p b kind [.value "ADDRESS"] (fun _ => True) (memoryAddress p b) := by
  refine (Reads.ensure (.own _ h (by simp [fixedTexts]))).bind fun _ => ?_
  exact (value_reads p b kind "ADDRESS" .anything).bind fun _ => .pure trivial

theorem storedLength_reads (text : String) :
    Reads p b .memoryWrite [] (fun _ => True) (storedLength text) := by
  unfold storedLength
  split
  · exact .pure trivial
  · refine (includeStrings_reads p b ?_).bind fun _ => .pure trivial
    exact List.mem_cons_of_mem _ List.mem_cons_self

theorem writeTo_reads (address : String) (stored : Stored) :
    Reads p b .memoryWrite [.value "VALUE"] Text.IsClosed (writeTo p b address stored) := by
  cases stored with
  | number =>
    refine (value_reads p b .memoryWrite "VALUE" .anything).bind fun content => .pure ?_
    exact .of_end _ rfl
  | byte =>
    refine (operandOrDefault_reads p b .memoryWrite "VALUE").bind fun content => .pure ?_
    exact .of_end _ rfl
  | text =>
    refine (value?_reads p b .memoryWrite "VALUE" .anything).bind fun found => ?_
    exact (storedLength_reads p b _).bind fun length => .pure (Text.IsClosed.of_end _ rfl)

theorem memoryWrite_reads :
    Reads p b .memoryWrite (slots b .memoryWrite) Text.IsClosed (memoryWrite p b) :=
  (memoryAddress_reads p b List.mem_cons_self).bind fun address => writeTo_reads p b address _

theorem readFrom_reads (address : String) : Reads p b .memoryRead [] Text.IsClosed
    (readFrom address (variableName p b) (.ofField (p.field b "TYPE"))) := by
  have hgiven : givenType? p b .memoryRead = some (Stored.ofField (p.field b "TYPE")).type := rfl
  cases hstored : Stored.ofField (p.field b "TYPE") with
  | number =>
    rw [hstored] at hgiven
    refine (Reads.perform (.setType hgiven)).bind fun _ => .pure ?_
    exact .of_end _ rfl
  | byte =>
    rw [hstored] at hgiven
    refine (Reads.perform (.setType hgiven)).bind fun _ => .pure ?_
    exact .of_end _ rfl
  | text =>
    rw [hstored] at hgiven
    refine (Reads.perform (.setType hgiven)).bind fun _ => ?_
    refine (Reads.perform (.setLength memoryTextLength)).bind fun _ => .pure ?_
    exact .of_end _ rfl

theorem memoryRead_reads :
    Reads p b .memoryRead (slots b .memoryRead) Text.IsClosed (memoryRead p b) :=
  (memoryAddress_reads p b List.mem_cons_self).bind fun address => readFrom_reads p b address

end BlockCompiler.Emit
