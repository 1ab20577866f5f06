import BlockCompiler.Proofs.Emit.Catalog

set_option autoImplicit false

/-! # Messages told apart

Two messages tell of a cycle and some of a second initializer. They start with letters of their own,
so no other message is taken for one of them, whatever names the user chose. -/

namespace BlockCompiler

/-! ## Ends of literals -/

/-- Literals are taken for their characters, so that the kernel need not decode them. -/
theorem Text.head?_ofList {cs : List Char} {c : Char} (h : cs.head? = some c) :
    (String.ofList cs).toList.head? = some c := by
  rw [String.toList_ofList, h]

theorem Text.getLast?_ofList {cs : List Char} {c : Char} (h : cs.getLast? = some c) :
    (String.ofList cs).toList.getLast? = some c := by
  rw [String.toList_ofList, h]

open Text

/-! ## How messages start -/

/-- A message starts with none of the letters of the messages about cycles and second
initializers. -/
def IsPlainMessage (message : String) : Prop :=
  ∃ c, message.toList.head? = some c ∧ c ∉ ['C', 'B', 'O']

/-- A message that starts with one of the letters is not plain. -/
theorem IsPlainMessage.ne {message other : String} {c : Char} (h : IsPlainMessage message)
    (hother : other.toList.head? = some c) (hc : c ∈ ['C', 'B', 'O']) : message ≠ other := by
  rintro rfl
  obtain ⟨c', hhead, hc'⟩ := h
  obtain rfl : c' = c := Option.some_inj.1 (hhead.symm.trans hother)
  exact hc' hc

namespace Emit

theorem head?_append {start : String} {c : Char} (rest : String)
    (hstart : start.toList.head? = some c) : (start ++ rest).toList.head? = some c := by
  rw [String.toList_append, List.head?_append, hstart]
  rfl

theorem head?_unknownMessage (b : Block) : (unknownMessage b).toList.head? = some 'U' :=
  head?_append _ (head?_append _ (head?_ofList rfl))

theorem head?_onlyOneMessage (label : String) :
    (onlyOneMessage label).toList.head? = some 'O' :=
  head?_append _ (head?_append _ (head?_ofList rfl))

theorem isPlainMessage_unknown (b : Block) : IsPlainMessage (unknownMessage b) :=
  ⟨'U', head?_unknownMessage b, by decide⟩

theorem isPlainMessage_noValue : IsPlainMessage noValueMessage :=
  ⟨'A', head?_ofList rfl, by decide⟩

theorem head?_missing {message : String} (h : message ∈ missingMessages) :
    message.toList.head? = some 'Y' := by
  simp only [missingMessages, List.mem_cons, List.not_mem_nil, or_false] at h
  rcases h with rfl | rfl | rfl | rfl <;> exact head?_ofList rfl

/-- A remark is about a stack that runs into itself or about a second initializer of the kind, or it
starts with another letter. -/
theorem Remark.cyclic_or_onlyOne_or_head? {p : Project} {b : Block} {kind : Kind}
    {message : String} (h : Remark p b kind message) :
    (message = cyclicMessage ∧ ∃ socket head, b.statements.get? socket = some head ∧
      (p.workspace.chainFrom head).repeated ≠ none) ∨
    (∃ label, initializerLabel? kind = some label ∧ message = onlyOneMessage label) ∨
    ∃ c ∈ ['A', 'N', 'P', 'S', 'T', 'Y', '"'], message.toList.head? = some c := by
  cases h with
  | cyclic hhead hrepeated => exact .inl ⟨rfl, _, _, hhead, hrepeated⟩
  | onlyOne hlabel => exact .inr (.inl ⟨_, hlabel, rfl⟩)
  | noInitializer hmissing => exact .inr (.inr ⟨'Y', by decide, head?_missing hmissing⟩)
  | noValue => exact .inr (.inr ⟨'A', by decide, head?_ofList rfl⟩)
  | noCall => exact .inr (.inr ⟨'P', by decide, head?_ofList rfl⟩)
  | noFile => exact .inr (.inr ⟨'Y', by decide, head?_ofList rfl⟩)
  | noDistance => exact .inr (.inr ⟨'T', by decide, head?_ofList rfl⟩)
  | wrongBoard => exact .inr (.inr ⟨'S', by decide, head?_ofList rfl⟩)
  | arrayMissing | arrayTwice | functionTwice | functionMissing =>
    exact .inr (.inr ⟨'T', by decide, head?_append _ (head?_append _ (head?_ofList rfl))⟩)
  | arrayFull =>
    refine .inr (.inr ⟨'T', by decide, head?_append _ (head?_append _ ?_)⟩)
    exact head?_append _ (head?_append _ (head?_ofList rfl))
  | noList =>
    exact .inr (.inr ⟨'N', by decide, head?_append _ (head?_append _ (head?_ofList rfl))⟩)
  | badName invalid | badColor invalid =>
    refine .inr (.inr ⟨'"', by decide, head?_append _ ?_⟩)
    exact head?_append _ (head?_append _ (head?_ofList rfl))

theorem Remark.cyclic_or_onlyOne_or_isPlain {p : Project} {b : Block} {kind : Kind}
    {message : String} (h : Remark p b kind message) :
    (message = cyclicMessage ∧ ∃ socket head, b.statements.get? socket = some head ∧
      (p.workspace.chainFrom head).repeated ≠ none) ∨
    (∃ label, initializerLabel? kind = some label ∧ message = onlyOneMessage label) ∨
    IsPlainMessage message := by
  have hletters : ∀ c ∈ ['A', 'N', 'P', 'S', 'T', 'Y', '"'], c ∉ ['C', 'B', 'O'] := by simp
  refine h.cyclic_or_onlyOne_or_head?.imp_right (Or.imp_right ?_)
  rintro ⟨c, hc, hhead⟩
  exact ⟨c, hhead, hletters c hc⟩

/-- No remark starts as the message about an unknown type does. -/
theorem Remark.head?_ne {p : Project} {b : Block} {kind : Kind} {message : String}
    (h : Remark p b kind message) : message.toList.head? ≠ some 'U' := by
  intro hhead
  rcases h.cyclic_or_onlyOne_or_head? with ⟨rfl, -⟩ | ⟨label, -, rfl⟩ | ⟨c, hc, hc'⟩
  · have hcyclic : cyclicMessage.toList.head? = some 'C' := head?_ofList rfl
    rw [hcyclic] at hhead
    cases hhead
  · rw [head?_onlyOneMessage] at hhead
    cases hhead
  · obtain rfl : c = 'U' := Option.some_inj.1 (hc'.symm.trans hhead)
    revert hc
    decide

/-! ## How messages end -/

/-- A message ends with a mark that is no blank and begins no mark of a comment. -/
def EndsVisibly (message : String) : Prop :=
  ∃ c ∈ ['!', '.', '"'], message.toList.getLast? = some c

theorem endsVisibly_append (front : String) {message : String} (h : EndsVisibly message) :
    EndsVisibly (front ++ message) := by
  obtain ⟨c, hc, hlast⟩ := h
  refine ⟨c, hc, ?_⟩
  rw [String.toList_append, List.getLast?_append, hlast]
  rfl

theorem endsVisibly_unknown (b : Block) : EndsVisibly (unknownMessage b) :=
  endsVisibly_append _ ⟨'"', by decide, getLast?_ofList rfl⟩

theorem Remark.endsVisibly {p : Project} {b : Block} {kind : Kind} {message : String}
    (h : Remark p b kind message) : EndsVisibly message := by
  cases h with
  | noValue | cyclic | noDistance => exact ⟨'.', by decide, getLast?_ofList rfl⟩
  | noCall | noFile | wrongBoard => exact ⟨'!', by decide, getLast?_ofList rfl⟩
  | noInitializer hmissing =>
    simp only [missingMessages, List.mem_cons, List.not_mem_nil, or_false] at hmissing
    rcases hmissing with rfl | rfl | rfl | rfl <;> exact ⟨'!', by decide, getLast?_ofList rfl⟩
  | arrayFull | badColor | onlyOne | noList =>
    exact endsVisibly_append _ ⟨'.', by decide, getLast?_ofList rfl⟩
  | arrayMissing | arrayTwice | functionTwice | functionMissing | badName =>
    exact endsVisibly_append _ ⟨'!', by decide, getLast?_ofList rfl⟩

end Emit

end BlockCompiler
