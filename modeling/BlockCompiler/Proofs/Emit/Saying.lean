import BlockCompiler.Proofs.Emit.Message
import BlockCompiler.Proofs.Expression.Writing
import BlockCompiler.Proofs.Recipe.Speech
import BlockCompiler.Proofs.Text.Reading

set_option autoImplicit false

/-! # What recipes say

Messages are sentences on one line, apart from four that quote what the user wrote: a type that is
unknown, the name of a file that is opened or played, and the color of a light. Code that is made without
a diagnostic starts with a letter or a closing brace, so it is never taken for the comment line of one,
and ends with its line. -/

namespace BlockCompiler

open Text

/-! ## How code starts -/

/-- Whether a text starts with a letter, an underscore or a closing brace. -/
def Text.startsCode (text : String) : Bool :=
  text.toList.head?.any fun c => c.isAlpha || c = '_' || c = '\x7d'

theorem Text.startsCode_append {text : String} (h : startsCode text = true) (rest : String) :
    startsCode (text ++ rest) = true := by
  unfold startsCode at h ⊢
  cases htext : text.toList with
  | nil => rw [htext] at h; cases h
  | cons c cs =>
    rw [htext] at h
    rw [String.toList_append, htext]
    exact h

theorem Identifier.startsCode_ofName (name : String) : startsCode (ofName name) = true := by
  obtain ⟨hword, c, rest, hname, hdigit⟩ := Expression.isName_ofName name
  have hc : isWordChar c = true := List.all_eq_true.1 hword c (hname ▸ List.mem_cons_self)
  unfold isWordChar Char.isAlphanum at hc
  rw [hdigit, Bool.or_false] at hc
  unfold startsCode
  rw [hname, List.head?_cons, Option.any_some, hc, Bool.true_or]

theorem Identifier.not_mem_newline_ofName (name : String) : '\n' ∉ (ofName name).toList := by
  intro hmem
  have hword := List.all_eq_true.1 (Expression.isName_ofName name).word _ hmem
  exact absurd hword (by decide)

/-- What starts as code does is no comment. -/
theorem Comment.not_isDiagnostic {text : String} (h : startsCode text = true) :
    isDiagnostic text = false := by
  unfold startsCode at h
  cases htext : text.toList with
  | nil => rw [htext] at h; cases h
  | cons c cs =>
    rw [htext] at h
    have hc : (c.isAlpha || c = '_' || c = '\x7d') = true := h
    have hne : c ≠ '/' ∧ isBlank c = false := by
      refine ⟨by rintro rfl; exact absurd hc (by decide), ?_⟩
      rcases Bool.or_eq_true_iff.1 hc with hc | hc
      · refine Expression.not_isBlank_of_isWordChar ?_
        unfold Identifier.isWordChar Char.isAlphanum
        rcases Bool.or_eq_true_iff.1 hc with hc | hc <;> simp [hc]
      · rw [of_decide_eq_true hc]
        decide
    have htrim : trimLeft text.toList = c :: cs := by
      rw [htext, trimLeft, List.dropWhile_cons_of_neg (by simp [hne.2])]
    unfold isDiagnostic
    rw [htrim]
    simp [Severity.label, List.isPrefixOf, hne.1.symm]

namespace Emit

/-! ## Messages -/

/-- A message on one line that ends visibly. -/
structure IsSentence (message : String) : Prop where
  line : '\n' ∉ message.toList
  ends : EndsVisibly message

/-- A literal is a sentence if its characters are. -/
theorem isSentence_ofList {cs : List Char} {c : Char} (hline : cs.contains '\n' = false)
    (hlast : cs.getLast? = some c) (hc : c ∈ ['!', '.', '"']) : IsSentence (String.ofList cs) where
  line := by
    rw [String.toList_ofList, ← List.contains_iff_mem, hline]
    exact Bool.false_ne_true
  ends := ⟨c, hc, getLast?_ofList hlast⟩

/-- A sentence around a word. -/
theorem isSentence_around {front word back : String} (hfront : '\n' ∉ front.toList)
    (hword : '\n' ∉ word.toList) (hback : IsSentence back) : IsSentence (front ++ word ++ back) where
  line := by simp [hfront, hword, hback.line]
  ends := endsVisibly_append _ hback.ends

/-- A message of a block holds a text as the user wrote it. -/
inductive Quotes (p : Project) (b : Block) : String → String → Prop where
  | type : Kind.ofName? b.type = none → Quotes p b b.type (unknownMessage b)
  | openedFile : Kind.ofName? b.type = some .fileOpen →
    Quotes p b (trimmed (p.field b "FILENAME"))
      (FileName.Invalid.message ⟨trimmed (p.field b "FILENAME")⟩ ++ "!")
  | playedFile : Kind.ofName? b.type = some .wavPlay →
    Quotes p b (trimmed (beforePoint (p.field b "FILENAME")))
      (FileName.Invalid.message ⟨trimmed (beforePoint (p.field b "FILENAME"))⟩ ++ "!")
  | color : Kind.ofName? b.type = some .scribblerLed →
    Quotes p b (trimmed (p.field b "COLOR"))
      (Color.Invalid.message ⟨trimmed (p.field b "COLOR")⟩ ++ "; the LED is turned off.")

/-- What is quoted stands between quotation marks, and the words around it are a sentence. -/
theorem Quotes.message_eq {p : Project} {b : Block} {text message : String}
    (h : Quotes p b text message) :
    ∃ front back, message = front ++ text ++ back ∧ '\n' ∉ front.toList ∧ IsSentence back ∧
      back.toList.head? = some '"' := by
  cases h with
  | type => exact ⟨"Unknown block type \"", "\"", rfl, by decide, ⟨by decide, '"', by decide, rfl⟩, rfl⟩
  | openedFile | playedFile =>
    refine ⟨"\"", "\" is not a valid SD card file name!", ?_, by decide,
      isSentence_ofList rfl rfl (by decide), rfl⟩
    simp [FileName.Invalid.message, String.append_assoc]
  | color =>
    refine ⟨"\"", "\" is not a #RRGGBB color; the LED is turned off.", ?_, by decide,
      isSentence_ofList rfl rfl (by decide), rfl⟩
    simp [Color.Invalid.message, String.append_assoc]

theorem Quotes.endsVisibly {p : Project} {b : Block} {text message : String}
    (h : Quotes p b text message) : EndsVisibly message := by
  obtain ⟨front, back, rfl, -, hback, -⟩ := h.message_eq
  exact endsVisibly_append _ hback.ends

/-- A diagnostic that a recipe records is about its own block. -/
def IsOwn (b : Block) (d : Diagnostic) : Prop := d.blockId = b.id ∧ d.blockType = b.type

/-- What a recipe says is a sentence, or quotes a text of its own block. -/
def Says (p : Project) (b : Block) (d : Diagnostic) : Prop :=
  IsSentence d.message ∨ (IsOwn b d ∧ ∃ text, Quotes p b text d.message)

theorem Says.endsVisibly {p : Project} {b : Block} {d : Diagnostic} (h : Says p b d) :
    EndsVisibly d.message := by
  rcases h with h | ⟨-, text, hquotes⟩
  · exact h.ends
  · exact hquotes.endsVisibly

theorem isTight_comment {d : Diagnostic} (h : EndsVisibly d.message) : IsTight d.comment := by
  obtain ⟨c, hc, hlast⟩ := h
  refine .inr ⟨("// " ++ d.severity.label ++ ": " ++ d.message).toList, ?_, ?_⟩
  · rw [Diagnostic.comment, String.toList_append]
    rfl
  · rw [String.toList_append, List.getLast?_append, hlast]
    rintro ⟨⟩
    exact absurd hc (by decide)

/-! ## Rules -/

section Rules

variable (p : Project) (b : Block)

/-- The statements of a recipe end with their line, and are taken for a diagnostic only if the recipe
records one about its block. -/
def SpeaksText (r : Recipe String) : Prop :=
  r.Speaks (Says p b) (IsOwn b) IsTight fun text => Comment.isDiagnostic text = false

/-- A remark that replaces the code is a diagnostic that the recipe records. -/
def SpeaksRemark (r : Recipe (Option String)) : Prop :=
  r.Speaks (Says p b) (IsOwn b) (fun remark => ∀ line ∈ remark, IsTight line) (· = none)

/-- A part of a recipe of which only matters what it says. -/
def SpeaksPart {α : Type} (yields : α → Prop) (r : Recipe α) : Prop :=
  r.Speaks (Says p b) (IsOwn b) yields fun _ => True

theorem speaks_empty : SpeaksText p b (pure "") := .pure isTight_empty (by decide)

theorem speaks_code {front back : String} (hstart : startsCode (front ++ back) = true)
    (hend : endsTight back = true) : SpeaksText p b (pure (front ++ back)) :=
  .pure (.of_end front hend) (Comment.not_isDiagnostic hstart)

theorem speaks_fixed {text : String} (hstart : startsCode text = true)
    (hend : endsTight text = true) : SpeaksText p b (pure text) := by
  have hcode : SpeaksText p b (pure ("" ++ text)) :=
    speaks_code p b (by rwa [String.empty_append]) hend
  rwa [String.empty_append] at hcode

theorem speaks_saying {severity : Severity} {message : String}
    (h : Says p b ⟨severity, b.id, b.type, message⟩) :
    SpeaksText p b (Recipe.diagnose severity b message) := by
  refine (Recipe.Speaks.diagnose h ⟨rfl, rfl⟩).mono ?_ fun _ => False.elim
  rintro _ rfl
  exact isTight_comment h.endsVisibly

theorem speaks_sentence {severity : Severity} {message : String} (h : IsSentence message) :
    SpeaksText p b (Recipe.diagnose severity b message) :=
  speaks_saying p b (.inl h)

theorem speaks_no_remark : SpeaksRemark p b (pure none) := .pure nofun rfl

theorem speaks_remark {message : String} (h : IsSentence message) :
    SpeaksRemark p b (Recipe.warning b message >>= fun line => pure (some line)) := by
  refine (Recipe.Speaks.diagnose (.inl h) ⟨rfl, rfl⟩).bind fun line hline => .pure ?_ False.elim
  rintro _ ⟨⟩
  rw [hline]
  exact isTight_comment h.ends

/-! ## Sockets -/

theorem isSentence_noValue : IsSentence noValueMessage := isSentence_ofList rfl rfl (by decide)

theorem isSentence_cyclic : IsSentence cyclicMessage := isSentence_ofList rfl rfl (by decide)

theorem says_of_noValue (d : Diagnostic) (h : d.message = noValueMessage) :
    ∀ d', Action.diagnose d = .diagnose d' → Says p b d' := by
  rintro _ ⟨⟩
  exact .inl (h ▸ isSentence_noValue)

theorem operand_speaks (socket : String) : SpeaksPart p b (fun _ => True) (operand p b socket) :=
  (operand_meets p b socket (says_of_noValue p b)).speaks

theorem operandOrDefault_speaks (socket : String) :
    SpeaksPart p b (fun _ => True) (operandOrDefault p b socket) :=
  (operandOrDefault_meets p b socket (says_of_noValue p b)).speaks

theorem value?_speaks (socket : String) (outer : Precedence) :
    SpeaksPart p b (fun _ => True) (value? p b socket outer) :=
  (value?_meets p b socket (says_of_noValue p b) outer).speaks

theorem value_speaks (socket : String) (outer : Precedence) :
    SpeaksPart p b (fun _ => True) (value p b socket outer) :=
  (value_meets p b socket (says_of_noValue p b) outer).speaks

theorem clampedValue_speaks (socket : String) (low high : Int) (outer : Precedence) :
    SpeaksPart p b (fun _ => True) (clampedValue p b socket low high outer) :=
  (clampedValue_meets p b socket (says_of_noValue p b) low high outer).speaks

theorem pin_speaks (socket : String) : SpeaksPart p b (fun _ => True) (pin p b socket) :=
  (pin_meets p b socket (says_of_noValue p b)).speaks

theorem body_speaks (socket : String) : SpeaksPart p b IsClosed (body p b socket) := by
  refine (body_meets p b socket fun _ _ _ d hd => ?_).speaks
  rintro _ ⟨⟩
  exact .inl (hd ▸ isSentence_cyclic)

end Rules

end Emit

end BlockCompiler
