import BlockCompiler.Proofs.Recipe.Overflow
import BlockCompiler.Proofs.Recipe.Path
import Mathlib.Data.List.Flatten

set_option autoImplicit false

/-! # What recipes read and do

The sockets that a kind reads, the texts it registers and the remarks it makes, each as a table by
kind, and the recipes for reading sockets measured by these tables. A block's recipe asks for the
code of blocks in its own sockets only, socket by socket; so a recipe never reaches past the blocks
that its block links to, and asks for each of them once. Its arithmetic only overflows if it computes
with a number that the user wrote. -/

namespace BlockCompiler

/-! ## Comments -/

theorem Diagnostic.head?_comment (d : Diagnostic) : d.comment.toList.head? = some '/' := by
  unfold comment
  rw [String.append_assoc, String.append_assoc, String.append_assoc, String.toList_append]
  rfl

/-- A text that starts with another character is no comment. -/
theorem Diagnostic.ne_comment {text : String} {c : Char} (h : text.toList.head? = some c)
    (hc : c ≠ '/') (d : Diagnostic) : text ≠ d.comment := by
  rintro rfl
  exact hc (Option.some_inj.1 (h.symm.trans d.head?_comment))

theorem Diagnostic.comment_ne_empty (d : Diagnostic) : d.comment ≠ "" := by
  intro hempty
  have hcomment := d.head?_comment
  rw [hempty] at hcomment
  cases hcomment

/-! ## Sockets -/

/-- A socket that a recipe reads: one for a value, or one for a stack. -/
inductive Slot where
  | value (socket : String)
  | stack (socket : String)
  deriving Repr, DecidableEq

theorem Workspace.isEnabled_eq_true_iff {w : Workspace} {id : BlockId} {test : Block → Bool} :
    w.isEnabled id test = true ↔
      ∃ b, w.block? id = some b ∧ b.disabled = false ∧ test b = true := by
  unfold isEnabled
  cases w.block? id <;> simp

/-- Whether the block of a number takes part in the program. -/
def Workspace.takesPart (w : Workspace) (id : BlockId) : Bool := w.isEnabled id fun _ => true

theorem Workspace.takesPart_eq_true_iff {w : Workspace} {id : BlockId} :
    w.takesPart id = true ↔ ∃ b, w.block? id = some b ∧ b.disabled = false := by
  simp only [takesPart, isEnabled_eq_true_iff, and_true]

/-- The enabled block that is plugged into a value socket. -/
def Project.plugged? (p : Project) (b : Block) (socket : String) : Option (BlockId × Block) :=
  match b.values.get? socket with
  | none => none
  | some id =>
    match p.workspace.block? id with
    | none => none
    | some child => if child.disabled then none else some (id, child)

/-- What is plugged in is an enabled block of the workspace. -/
theorem Project.plugged?_eq_some {p : Project} {b child : Block} {socket : String} {id : BlockId}
    (h : p.plugged? b socket = some (id, child)) :
    b.values.get? socket = some id ∧ p.workspace.block? id = some child ∧
      child.disabled = false := by
  unfold plugged? at h
  split at h
  · cases h
  · next id' hid =>
    split at h
    · cases h
    · next child' hchild =>
      split at h
      · cases h
      · next hdisabled =>
        obtain ⟨rfl, rfl⟩ : id' = id ∧ child' = child := by simpa using h
        exact ⟨hid, hchild, Bool.eq_false_iff.2 hdisabled⟩

/-- The enabled blocks in a socket, first block of a stack first. -/
def Project.filled (p : Project) (b : Block) : Slot → List BlockId
  | .value socket => (p.plugged? b socket).toList.map Prod.fst
  | .stack socket =>
    match b.statements.get? socket with
    | none => []
    | some head => (p.workspace.chainFrom head).members.filter p.workspace.takesPart

theorem Project.mem_filled_value {p : Project} {b : Block} {socket : String} {x : BlockId} :
    x ∈ p.filled b (.value socket) ↔ ∃ child, p.plugged? b socket = some (x, child) := by
  simp [filled]

theorem Project.mem_filled_stack {p : Project} {b : Block} {socket : String} {x : BlockId} :
    x ∈ p.filled b (.stack socket) ↔ ∃ head, b.statements.get? socket = some head ∧
      x ∈ (p.workspace.chainFrom head).members ∧ p.workspace.takesPart x = true := by
  cases h : b.statements.get? socket <;> simp [filled, h]

namespace Emit

/-! ## Tables -/

/-- The sockets that a kind of block reads, in the order in which it reads them. -/
def slots (b : Block) : Kind → List Slot
  | .pause => [.value "PAUSE_TIME"]
  | .branch =>
    ((List.range (conditionCount b)).flatMap fun n =>
      [.value ("IF" ++ toString n), .stack ("DO" ++ toString n)]) ++ [.stack "ELSE"]
  | .repeatLoop => [.value "TIMES", .value "REPEAT_CONDITION", .stack "DO"]
  | .countingLoop => [.value "START", .value "END", .value "STEP", .stack "DO"]
  | .procedure => [.stack "STACK"]
  | .arithmetic | .limit | .random | .compare | .logic => [.value "A", .value "B"]
  | .negate => [.value "BOOL"]
  | .assign => [.value "VALUE"]
  | .arrayGet => [.value "NUM"]
  | .arraySet => [.value "NUM", .value "VALUE"]
  | .print => [.value "MESSAGE"]
  | .printValue => [.value "VALUE"]
  | .makePin | .makePinInput | .checkPin | .checkPinInput => [.value "PIN"]
  | .pwmStart => [.value "PERIOD"]
  | .pwmSet => [.value "PIN", .value "DUTY_CYCLE"]
  | .frequencyOut => [.value "PIN", .value "DURATION", .value "FREQUENCY"]
  | .soundInit => [.value "PINL", .value "PINR"]
  | .soundPlay => [.value "VALUE"]
  | .wavVolume => [.value "VOLUME"]
  | .cardInit => [.value "DO", .value "CLK", .value "DI", .value "CS"]
  | .fileRead => [.value "SIZE"]
  | .fileWrite => [.value "VALUE"]
  | .servoMove => [.value "PIN", .value "ANGLE"]
  | .servoSpeed => [.value "PIN", .value "SPEED"]
  | .servoRamp => [.value "PIN", .value "RAMPSTEP"]
  | .memoryWrite => [.value "ADDRESS", .value "VALUE"]
  | .memoryRead => [.value "ADDRESS"]
  | .driveInit | .driveGoto | .driveSpeed => [.value "LEFT", .value "RIGHT"]
  | .scribblerDrive =>
    [.value "LEFT_MOTOR_SPEED", .value "RIGHT_MOTOR_SPEED", .value "MOTOR_DURATION"]
  | .scribblerPlay => [.value "FREQUENCY", .value "DURATION"]
  | _ => []

/-- What a kind of block registers under a key of its own. -/
def ownKeys : Kind → List (Section × String)
  | .countingLoop => [(.includes, "stdlib")]
  | .random => [(.setups, "random_seed")]
  | .assign | .arrayFill | .arrayClear => [(.includes, "string")]
  | .soundInit => [(.includes, "sound"), (.globals, "sound_handle"), (.setups, "sound_init")]
  | .wavPlay | .wavVolume | .wavStop => [(.includes, "wavplayer")]
  | .fileOpen | .fileRead | .fileClose => [(.globals, "sd_file")]
  | .fileWrite => [(.globals, "sd_file"), (.includes, "string")]
  | .servoMove | .servoSpeed | .servoRamp => [(.includes, "servo")]
  | .memoryWrite => [(.globals, "constrain_function"), (.includes, "string")]
  | .memoryRead => [(.globals, "constrain_function")]
  | .driveInit => [(.includes, "robot_drive"), (.setups, "robot_pins")]
  | .scribblerDrive | .scribblerStop | .scribblerLed | .scribblerPlay | .scribblerLine
  | .scribblerObstacle => [(.includes, "s3"), (.setups, "s3_setup")]
  | _ => []

/-- The texts under keys of kinds that are the same in every program. -/
def fixedTexts : List ((Section × String) × String) :=
  [((.globals, "sound_handle"), "sound *audio0;"), ((.globals, "sd_file"), "FILE *fp;"),
    ((.globals, "constrain_function"), constrainFunction),
    ((.setups, "random_seed"), "srand(INA + CNT);")]

/-- The declaration of an array. -/
def arrayDeclaration (name : String) (size : Int) : String :=
  "int " ++ name ++ "[" ++ toString size ++ "];"

/-- The name of the function that a block defines. -/
def functionName (p : Project) (b : Block) : String := Identifier.ofName (p.field b "NAME")

/-- The prototype of a function. -/
def prototype (name : String) : String := "void " ++ name ++ "();"

/-- A function around the code of its stack. -/
def functionText (name stack : String) : String :=
  "void " ++ name ++ "() \x7b\n" ++ stack ++ "\x7d\n"

/-- Whether a kind of block needs the card. -/
def usesCard : Kind → Bool
  | .wavPlay | .fileOpen | .fileRead | .fileWrite | .fileClose => true
  | _ => false

/-- What an initializer is called in the warning about a second one. -/
def initializerLabel? : Kind → Option String
  | .pwmStart => some "PWM initialize"
  | .soundInit => some "sound initialize"
  | .cardInit => some "SD initialize"
  | .driveInit => some "Robot initialize"
  | _ => none

/-- The warning about statements where a value is expected. -/
def noValueMessage : String := "A statement block cannot be used as a value."

/-- The warning about a second initializer. -/
def onlyOneMessage (label : String) : String :=
  "Only one " ++ label ++ " block may be used! This one is ignored."

/-- The warning about a stack that runs into itself. -/
def cyclicMessage : String := "Cyclic statement chain; stopped here."

/-- The warnings about initializers that are missing. -/
def missingMessages : List String := [
  "You must use a PWM initialize block at the beginning of your program!",
  "You must use a sound initialize block at the beginning of your program!",
  "You must use a SD initialize block at the beginning of your program!",
  "You must use a Robot initialize block at the beginning of your program!"]

/-- The messages that a block of a kind records. -/
inductive Remark (p : Project) (b : Block) : Kind → String → Prop where
  | noValue {kind : Kind} : Remark p b kind noValueMessage
  | cyclic {kind : Kind} {socket : String} {head : BlockId} :
    b.statements.get? socket = some head → (p.workspace.chainFrom head).repeated ≠ none →
    Remark p b kind cyclicMessage
  | onlyOne {kind : Kind} {label : String} :
    initializerLabel? kind = some label → Remark p b kind (onlyOneMessage label)
  | arrayMissing {kind : Kind} (name : String) :
    Remark p b kind ("The array \"" ++ name ++ "\" has not been initialized!")
  | arrayTwice {kind : Kind} (name : String) :
    Remark p b kind ("The array \"" ++ name ++ "\" is initialized more than once with different sizes!")
  | arrayFull {kind : Kind} (name : String) (size : Int) :
    Remark p b kind ("The array \"" ++ name ++ "\" only has " ++ toString size ++
      " elements; extra values were dropped.")
  | noList {kind : Kind} (name : String) :
    Remark p b kind ("No values given to fill the array \"" ++ name ++ "\".")
  | functionTwice {kind : Kind} (name : String) :
    Remark p b kind ("The function \"" ++ name ++ "\" is defined more than once!")
  | functionMissing {kind : Kind} (name : String) :
    Remark p b kind ("The function \"" ++ name ++ "\" has not been defined!")
  | noCall {kind : Kind} :
    Remark p b kind "Put a function call block inside the new processor block!"
  | noInitializer {kind : Kind} {message : String} :
    message ∈ missingMessages → Remark p b kind message
  | noFile {kind : Kind} :
    Remark p b kind "You must open a file with the SD file open block first!"
  | badName {kind : Kind} (invalid : FileName.Invalid) : Remark p b kind (invalid.message ++ "!")
  | noDistance {kind : Kind} :
    Remark p b kind
      "The servo differential drive cannot drive a distance; use the drive speed block."
  | wrongBoard {kind : Kind} :
    Remark p b kind "Scribbler blocks can only be used with the Scribbler 3 robot!"
  | badColor {kind : Kind} (invalid : Color.Invalid) :
    Remark p b kind (invalid.message ++ "; the LED is turned off.")

/-- The type of a variable that a memory block fills. -/
def Stored.type : Stored → CType
  | .text => .char
  | _ => .int

/-- The type that a block of a kind gives the variable that it names, unless the type goes by the value
that is assigned. -/
def givenType? (p : Project) (b : Block) : Kind → Option CType
  | .countingLoop => some .int
  | .fileRead => some .char
  | .memoryRead => some (Stored.ofField (p.field b "TYPE")).type
  | .assign => if isBuffer p (variableName p b) then some .char else none
  | _ => none

/-- The actions that a block of a kind takes. -/
inductive Allowed (p : Project) (b : Block) (kind : Kind) : Action → Prop where
  | own {part : Section} {key : String} (text : String) :
    (part, key) ∈ ownKeys kind → (∀ fixed, ((part, key), fixed) ∈ fixedTexts → text = fixed) →
    Allowed p b kind (.register part key text)
  | snippet {part : Section} (text : String) :
    kind = .customCode → customSection? (p.field b "LOCATION") = some part →
    Allowed p b kind (.register part ("custom_code_" ++ b.id) text)
  | array (size : Int) :
    kind = .arrayInit → Allowed p b kind (.register .globals (arrayKey (variableName p b))
      (arrayDeclaration (variableName p b) size))
  | prototype :
    kind = .procedure →
    Allowed p b kind (.register .declarations (functionName p b) (prototype (functionName p b)))
  | function (stack : String) :
    kind = .procedure →
    Allowed p b kind (.register .methods (functionName p b) (functionText (functionName p b) stack))
  | mount (text : String) :
    usesCard kind = true → p.has .cardInit = false →
    Allowed p b kind (.register .setups cardSetup text)
  | remount (text : String) : kind = .cardInit → Allowed p b kind (.replaceSetup cardSetup text)
  | inferType (text : String) : Allowed p b kind (.inferType (variableName p b) text)
  | setType {type : CType} :
    givenType? p b kind = some type → Allowed p b kind (.setType (variableName p b) type)
  | setLength (length : Nat) : Allowed p b kind (.setLength (variableName p b) length)
  | diagnose {d : Diagnostic} : Remark p b kind d.message → Allowed p b kind (.diagnose d)

/-- Whether the recipe of a kind computes with a number from the workspace that may be as great as words
of 64 bits can be. -/
def computes : Kind → Bool
  | .branch | .countingLoop => true
  | _ => false

/-- A recipe reads some of the given sockets in their order, takes only actions that its kind may
take, has an outcome as told, and never overflows unless its kind computes. -/
structure Reads (p : Project) (b : Block) (kind : Kind) (slots : List Slot) {α : Type}
    (yields : α → Prop) (r : Recipe α) : Prop where
  meets : r.Meets (slots.flatMap (p.filled b)) (Allowed p b kind) yields
  isExact : computes kind = false → r.IsExact

/-! ## Rules -/

section Rules

variable {p : Project} {b : Block} {kind : Kind} {slots slots' : List Slot} {α β : Type}
  {yields : α → Prop} {yields' : β → Prop}

theorem Reads.pure {a : α} (h : yields a) : Reads p b kind [] yields (pure a) :=
  ⟨.pure h, fun _ => .pure a⟩

/-- What follows may count on the outcome that it goes on with. -/
theorem Reads.bind_given {r : Recipe α} {f : α → Recipe β} (hr : Reads p b kind slots yields r)
    (hf : ∀ a, Reads p b kind slots' (fun c => yields a → yields' c) (f a)) :
    Reads p b kind (slots ++ slots') yields' (r >>= f) where
  meets := by
    rw [List.flatMap_append]
    exact hr.meets.bind fun a ha => (hf a).meets.mono (.refl _) (fun _ => id) fun _ h => h ha
  isExact hkind := (hr.isExact hkind).bind fun a => (hf a).isExact hkind

theorem Reads.weaken {weaker : α → Prop} {r : Recipe α} (h : Reads p b kind slots yields r)
    (hyields : ∀ a, yields a → weaker a) : Reads p b kind slots weaker r :=
  ⟨h.meets.mono (.refl _) (fun _ => id) hyields, h.isExact⟩

theorem Reads.bind {r : Recipe α} {f : α → Recipe β} (hr : Reads p b kind slots yields r)
    (hf : ∀ a, Reads p b kind slots' yields' (f a)) :
    Reads p b kind (slots ++ slots') yields' (r >>= f) :=
  hr.bind_given fun a => (hf a).weaken fun _ hc _ => hc

/-- A recipe may leave sockets out. -/
theorem Reads.mono {r : Recipe α} (h : Reads p b kind slots yields r)
    (hslots : slots.Sublist slots') : Reads p b kind slots' yields r :=
  ⟨h.meets.mono (hslots.flatMap _) (fun _ => id) (fun _ => id), h.isExact⟩

/-- A recipe that reads one socket. -/
theorem Reads.of_filled {r : Recipe α} {slot : Slot}
    (h : r.Meets (p.filled b slot) (Allowed p b kind) yields) (hexact : r.IsExact) :
    Reads p b kind [slot] yields r where
  meets := by rwa [List.flatMap_singleton]
  isExact _ := hexact

/-- A recipe that reads no socket. -/
theorem Reads.of_nil {r : Recipe α} (h : Reads p b kind [] yields r) (slots : List Slot) :
    Reads p b kind slots yields r :=
  h.mono (List.nil_sublist slots)

theorem Reads.perform {action : Action} (h : Allowed p b kind action) :
    Reads p b kind [] (fun _ => True) (Recipe.perform action) :=
  ⟨.perform h, fun _ => .perform action⟩

theorem Reads.register {part : Section} {key text : String}
    (h : Allowed p b kind (.register part key text)) :
    Reads p b kind [] (fun _ => True) (Recipe.register part key text) :=
  .perform h

theorem Reads.ensure {part : Section} {key text : String}
    (h : Allowed p b kind (.register part key text)) :
    Reads p b kind [] (fun _ => True) (Recipe.ensure part key text) :=
  (Reads.register h).bind fun _ => .pure trivial

theorem Reads.freshName (stem : String) :
    Reads p b kind [] (fun _ => True) (Recipe.freshName stem) :=
  ⟨.freshName stem, fun _ => .freshName stem⟩

/-- The recipe of a kind that computes may overflow. -/
theorem Reads.overflowUnless (hkind : computes kind = true) (fits : Bool) :
    Reads p b kind [] (fun _ => True) (Recipe.overflowUnless fits) :=
  ⟨.overflowUnless fits, fun hnone => by rw [hkind] at hnone; cases hnone⟩

/-- A comment line is closed. -/
theorem isClosed_comment (d : Diagnostic) : Text.IsClosed d.comment :=
  Text.isClosed_newline _

theorem Reads.diagnose {severity : Severity} {about : Block} {message : String}
    (h : Remark p b kind message) :
    Reads p b kind [] Text.IsClosed (Recipe.diagnose severity about message) :=
  (Reads.perform (.diagnose h)).bind fun _ => .pure (isClosed_comment _)

theorem Reads.warning {about : Block} {message : String} (h : Remark p b kind message) :
    Reads p b kind [] Text.IsClosed (Recipe.warning about message) :=
  .diagnose h

theorem Reads.error {about : Block} {message : String} (h : Remark p b kind message) :
    Reads p b kind [] Text.IsClosed (Recipe.error about message) :=
  .diagnose h

end Rules

/-! ## Values -/

theorem within_of_atomic {o : Operand} (h : o.order = .atomic) (outer : Precedence) :
    o.within outer = o.text := by
  have hbare : Precedence.needsParens .atomic outer = false := by cases outer <;> rfl
  rw [Operand.within, Precedence.wrap, h, hbare]
  rfl

section Values

variable {p : Project} {b : Block} {socket : String}

/-- An empty socket has no operand. -/
theorem operand_of_empty (h : p.plugged? b socket = none) : operand p b socket = pure none := by
  unfold Project.plugged? at h
  unfold operand
  cases hid : b.values.get? socket with
  | none => rfl
  | some id =>
    rw [hid] at h
    cases hchild : p.workspace.block? id with
    | none => simp only [hchild]
    | some child =>
      simp only [hchild] at h ⊢
      split
      · rfl
      · next hdisabled => rw [if_neg hdisabled] at h; cases h

/-- The operand of a block that is plugged in. -/
theorem operand_of_plugged {id : BlockId} {child : Block}
    (h : p.plugged? b socket = some (id, child)) :
    operand p b socket = do
      match ← Recipe.code id with
      | .expression found => return some found
      | .statement text =>
        let comment ←
          if Comment.isDiagnostic text then pure text
          else Recipe.warning child "A statement block cannot be used as a value."
        return some (.atom (Comment.beforeValue comment (p.socketDefault b socket))) := by
  obtain ⟨hid, hchild, henabled⟩ := Project.plugged?_eq_some h
  have hopen : ¬child.disabled = true := Bool.eq_false_iff.1 henabled
  unfold operand
  rw [hid]
  dsimp only
  rw [hchild]
  dsimp only
  exact if_neg hopen

section Meets

variable (p b) (socket : String) {allowed : Action → Prop}
  (h : ∀ d : Diagnostic, d.message = noValueMessage → allowed (.diagnose d))

include h

/-- Reading a value asks for the block that is plugged in; no diagnostic but one can come of it. -/
theorem operand_meets :
    (operand p b socket).Meets (p.filled b (.value socket)) allowed fun _ => True := by
  cases hplugged : p.plugged? b socket with
  | none =>
    rw [operand_of_empty hplugged]
    exact (Recipe.Meets.pure trivial).of_nil _
  | some plugged =>
    obtain ⟨id, child⟩ := plugged
    have hfilled : p.filled b (.value socket) = [id] := by simp [Project.filled, hplugged]
    rw [operand_of_plugged hplugged, hfilled]
    refine (Recipe.Meets.code id).bind_nil fun fragment _ => ?_
    cases fragment with
    | expression found => exact .pure trivial
    | statement text =>
      dsimp only
      split
      · exact .pure trivial
      · exact (Recipe.Meets.perform (h _ rfl)).bind_nil fun _ _ => .pure trivial

theorem operandOrDefault_meets :
    (operandOrDefault p b socket).Meets (p.filled b (.value socket)) allowed fun _ => True := by
  refine (operand_meets p b socket h).bind_nil fun found _ => ?_
  cases found with
  | none => exact .pure trivial
  | some found => exact .pure trivial

theorem value?_meets (outer : Precedence) :
    (value? p b socket outer).Meets (p.filled b (.value socket)) allowed fun _ => True :=
  (operand_meets p b socket h).bind_nil fun _ _ => .pure trivial

theorem value_meets (outer : Precedence) :
    (value p b socket outer).Meets (p.filled b (.value socket)) allowed fun _ => True :=
  (value?_meets p b socket h outer).bind_nil fun _ _ => .pure trivial

theorem clampedValue_meets (low high : Int) (outer : Precedence) :
    (clampedValue p b socket low high outer).Meets (p.filled b (.value socket)) allowed
      fun _ => True := by
  refine (operandOrDefault_meets p b socket h).bind_nil fun found _ => ?_
  split
  · exact .pure trivial
  · exact .pure trivial

theorem pin_meets :
    (pin p b socket).Meets (p.filled b (.value socket)) allowed fun _ => True := by
  unfold pin
  split
  · exact value_meets p b socket h .anything
  · exact (Recipe.Meets.pure trivial).of_nil _

end Meets

section Exact

variable (p b) (socket : String)

/-- Reading a value computes nothing. -/
theorem operand_isExact : (operand p b socket).IsExact := by
  cases hplugged : p.plugged? b socket with
  | none =>
    rw [operand_of_empty hplugged]
    exact .pure none
  | some plugged =>
    rw [operand_of_plugged hplugged]
    refine (Recipe.IsExact.code _).bind fun fragment => ?_
    cases fragment with
    | expression found => exact .pure _
    | statement text =>
      dsimp only
      split
      · exact .pure _
      · exact (Recipe.IsExact.perform _).bind fun _ => .pure _

theorem operandOrDefault_isExact : (operandOrDefault p b socket).IsExact := by
  refine (operand_isExact p b socket).bind fun found => ?_
  cases found with
  | none => exact .pure _
  | some found => exact .pure _

theorem value?_isExact (outer : Precedence) : (value? p b socket outer).IsExact :=
  (operand_isExact p b socket).bind fun _ => .pure _

theorem value_isExact (outer : Precedence) : (value p b socket outer).IsExact :=
  (value?_isExact p b socket outer).bind fun _ => .pure _

theorem clampedValue_isExact (low high : Int) (outer : Precedence) :
    (clampedValue p b socket low high outer).IsExact := by
  refine (operandOrDefault_isExact p b socket).bind fun found => ?_
  split
  · exact .pure _
  · exact .pure _

theorem pin_isExact : (pin p b socket).IsExact := by
  unfold pin
  split
  · exact value_isExact p b socket .anything
  · exact .pure _

end Exact

variable (p b) (kind : Kind) (socket : String)

/-- Statements where a value is expected are a remark of every kind. -/
theorem allowed_noValue (d : Diagnostic) (h : d.message = noValueMessage) :
    Allowed p b kind (.diagnose d) :=
  .diagnose (h ▸ .noValue)

theorem operand_reads : Reads p b kind [.value socket] (fun _ => True) (operand p b socket) :=
  .of_filled (operand_meets p b socket (allowed_noValue p b kind))
    (operand_isExact p b socket)

theorem operandOrDefault_reads :
    Reads p b kind [.value socket] (fun _ => True) (operandOrDefault p b socket) :=
  .of_filled (operandOrDefault_meets p b socket (allowed_noValue p b kind))
    (operandOrDefault_isExact p b socket)

theorem value?_reads (outer : Precedence) :
    Reads p b kind [.value socket] (fun _ => True) (value? p b socket outer) :=
  .of_filled (value?_meets p b socket (allowed_noValue p b kind) outer)
    (value?_isExact p b socket outer)

theorem value_reads (outer : Precedence) :
    Reads p b kind [.value socket] (fun _ => True) (value p b socket outer) :=
  .of_filled (value_meets p b socket (allowed_noValue p b kind) outer)
    (value_isExact p b socket outer)

theorem clampedValue_reads (low high : Int) (outer : Precedence) :
    Reads p b kind [.value socket] (fun _ => True) (clampedValue p b socket low high outer) :=
  .of_filled (clampedValue_meets p b socket (allowed_noValue p b kind) low high outer)
    (clampedValue_isExact p b socket low high outer)

theorem pin_reads : Reads p b kind [.value socket] (fun _ => True) (pin p b socket) :=
  .of_filled (pin_meets p b socket (allowed_noValue p b kind))
    (pin_isExact p b socket)

end Values

/-! ## Stacks -/

section Stacks

variable (p : Project) {allowed : Action → Prop}

theorem member_meets (id : BlockId) :
    (member p id).Meets ([id].filter p.workspace.takesPart) allowed Text.IsClosed := by
  unfold member
  split
  · exact (Recipe.Meets.pure Text.isClosed_empty).of_nil _
  · next b hb =>
    split
    · exact (Recipe.Meets.pure Text.isClosed_empty).of_nil _
    · next hdisabled =>
      have htakes : p.workspace.takesPart id = true :=
        Workspace.takesPart_eq_true_iff.2 ⟨b, hb, Bool.eq_false_iff.2 hdisabled⟩
      rw [List.filter_cons_of_pos htakes]
      refine (Recipe.Meets.code id).bind fun fragment hfragment => ?_
      cases fragment with
      | statement text => exact .pure hfragment
      | expression found => exact .pure Text.isClosed_empty

theorem chainEnd_meets {repeated : Option BlockId}
    (h : repeated ≠ none → ∀ d : Diagnostic, d.message = cyclicMessage → allowed (.diagnose d)) :
    (chainEnd p repeated).Meets [] allowed Text.IsClosed := by
  unfold chainEnd
  split
  · next b hb =>
    have hne : repeated ≠ none := by rintro rfl; cases hb
    exact (Recipe.Meets.perform (h hne _ rfl)).bind fun _ _ => .pure (isClosed_comment _)
  · exact .pure Text.isClosed_empty

theorem flatMap_filter_singleton {α : Type} (test : α → Bool) (as : List α) :
    (as.flatMap fun a => [a].filter test) = as.filter test := by
  induction as with
  | nil => rfl
  | cons a as ih =>
    rw [List.flatMap_cons, ih]
    cases h : test a <;> simp [h]

/-- The members of a stack that take part in the program are asked for in their order. -/
theorem chain_meets {head : BlockId}
    (h : (p.workspace.chainFrom head).repeated ≠ none → ∀ d : Diagnostic,
      d.message = cyclicMessage → allowed (.diagnose d)) :
    (chain p head).Meets ((p.workspace.chainFrom head).members.filter p.workspace.takesPart) allowed
      Text.IsClosed := by
  -- each member that takes part is asked for once, the others not at all
  have hbody : (Recipe.concat ((p.workspace.chainFrom head).members.map (member p))).Meets
      ((p.workspace.chainFrom head).members.filter p.workspace.takesPart) allowed Text.IsClosed := by
    have hmember : ∀ id ∈ (p.workspace.chainFrom head).members,
        (member p id).Meets ([id].filter p.workspace.takesPart) allowed Text.IsClosed :=
      fun id _ => member_meets p id
    have hmembers := Recipe.Meets.concat hmember
    rwa [flatMap_filter_singleton] at hmembers
  have hchain := hbody.bind fun body hbody =>
    (chainEnd_meets p h).bind fun close hclose => Recipe.Meets.pure (hbody.append hclose)
  rwa [List.append_nil, List.append_nil] at hchain

theorem body_meets (b : Block) (socket : String)
    (h : ∀ head, b.statements.get? socket = some head →
      (p.workspace.chainFrom head).repeated ≠ none → ∀ d : Diagnostic, d.message = cyclicMessage →
        allowed (.diagnose d)) :
    (body p b socket).Meets (p.filled b (.stack socket)) allowed Text.IsClosed := by
  unfold body
  split
  · exact (Recipe.Meets.pure Text.isClosed_empty).of_nil _
  · next head hhead =>
    have hfilled : p.filled b (.stack socket) =
        (p.workspace.chainFrom head).members.filter p.workspace.takesPart := by
      simp [Project.filled, hhead]
    rw [hfilled]
    refine (chain_meets p (h head hhead)).bind_nil fun text htext => .pure ?_
    exact htext.indent indentation

/-- Walking a stack computes nothing. -/
theorem chain_isExact (head : BlockId) : (chain p head).IsExact := by
  refine Recipe.IsExact.bind (.concat fun r hr => ?_) fun _ => ?_
  · obtain ⟨id, -, rfl⟩ := List.mem_map.1 hr
    unfold member
    split
    · exact .pure ""
    · split
      · exact .pure ""
      · refine (Recipe.IsExact.code id).bind fun fragment => ?_
        cases fragment with
        | statement text => exact .pure text
        | expression found => exact .pure ""
  · refine Recipe.IsExact.bind ?_ fun _ => .pure _
    unfold chainEnd
    split
    · exact (Recipe.IsExact.perform _).bind fun _ => .pure _
    · exact .pure ""

theorem body_isExact (b : Block) (socket : String) : (body p b socket).IsExact := by
  unfold body
  split
  · exact .pure ""
  · exact (chain_isExact p _).bind fun _ => .pure _

/-- The stack in a socket. -/
theorem body_reads (b : Block) (kind : Kind) (socket : String) :
    Reads p b kind [.stack socket] Text.IsClosed (body p b socket) := by
  refine .of_filled (body_meets p b socket fun head hhead hrepeated d hd => .diagnose ?_)
    (body_isExact p b socket)
  rw [hd]
  exact .cyclic hhead hrepeated

end Stacks

/-! ## Initializers -/

/-- Whether an initializer is a second one, it reads nothing. -/
theorem duplicateWarning?_reads (p : Project) (b : Block) {kind : Kind} {label : String}
    (id : BlockId) (h : initializerLabel? kind = some label) :
    Reads p b kind [] (fun warning => ∀ line ∈ warning, Text.IsClosed line)
      (duplicateWarning? p id b kind label) := by
  unfold duplicateWarning?
  split
  · exact .pure nofun
  · split
    · exact .pure nofun
    · refine (Reads.warning (.onlyOne h)).bind_given fun line => .pure fun hline => ?_
      rintro _ ⟨⟩
      exact hline

end Emit

end BlockCompiler
