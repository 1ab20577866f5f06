import BlockCompiler.Proofs.Emission.Nesting
import BlockCompiler.Proofs.Emit.Catalog
import BlockCompiler.Proofs.Text.Unescape

set_option autoImplicit false

/-! # Texts that are written out

A text block yields the literal of its text. A block that takes a text looks at the code of it: a
literal has a length that can be written down, which goes with the literal where it is stored, and
where it is printed it is the format itself. -/

namespace BlockCompiler

open Text

namespace Project

variable {p : Project} {b : Block} {socket t : String} {s u : Emission}

/-! ## Text blocks -/

/-- An enabled text block that is not being made is plugged into a socket, and its text is `t`. -/
def YieldsText (p : Project) (s : Emission) (b : Block) (socket t : String) : Prop :=
  ∃ id child, p.plugged? b socket = some (id, child) ∧ child.type = Kind.text.name ∧
    id ∉ s.active ∧ p.field child "TEXT" = t

namespace YieldsText

theorem of_active_eq (h : p.YieldsText s b socket t) (hu : u.active = s.active) :
    p.YieldsText u b socket t := by
  obtain ⟨id, child, hplugged, hkind, hid, ht⟩ := h
  exact ⟨id, child, hplugged, hkind, hu ▸ hid, ht⟩

variable (h : p.YieldsText s b socket t)

include h

/-- The literal of the text is asked for and registers nothing. -/
theorem run_operand : (p.run (Emit.operand p b socket) s).1 = some (.atom (quote t)) ∧
    (p.run (Emit.operand p b socket) s).2.context = s.context := by
  obtain ⟨id, child, hplugged, hkind, hid, rfl⟩ := h
  obtain ⟨-, hchild, -⟩ := plugged?_eq_some hplugged
  have hrecipe : Emit.recipe p id child = (Emitter.value (Emit.text p child)).fragment :=
    Emit.recipe_of_kind (hkind ▸ Kind.ofName?_name .text) id
  rw [Emit.operand_of_plugged hplugged, run_bind, run_code, emit_of_pure hchild hid hrecipe]
  exact ⟨rfl, rfl⟩

theorem run_value? (outer : Precedence) :
    (p.run (Emit.value? p b socket outer) s).1 = some (quote t) ∧
      (p.run (Emit.value? p b socket outer) s).2.context = s.context := by
  obtain ⟨hoperand, hcontext⟩ := h.run_operand
  rw [Emit.value?, run_bind, hoperand]
  exact ⟨congrArg some (Emit.within_of_atomic rfl outer), hcontext⟩

theorem run_value (outer : Precedence) :
    (p.run (Emit.value p b socket outer) s).1 = quote t ∧
      (p.run (Emit.value p b socket outer) s).2.context = s.context := by
  obtain ⟨hvalue, hcontext⟩ := h.run_value? outer
  rw [Emit.value, run_bind, hvalue]
  exact ⟨rfl, hcontext⟩

end YieldsText

/-! ## Lengths -/

/-- No warning stands in the way of a file that is opened on a card which is mounted. -/
theorem run_fileWarning? (hcard : p.has .cardInit = true ∨ p.board.hasCardSocket = true)
    (hopen : p.has .fileOpen = true) (s : Emission) :
    (p.run (Emit.fileWarning? p b) s).1 = none := by
  have hmounted : ∀ s, (p.run (Emit.cardWarning? p b) s).1 = none := by
    intro s
    unfold Emit.cardWarning?
    split
    · rfl
    · next hinit =>
      rw [if_pos (hcard.resolve_left hinit)]
      rfl
  rw [Emit.fileWarning?, run_bind, hmounted, hopen]
  rfl

/-- A buffer stays a buffer when it is assigned to. -/
theorem run_assignedType {name : String} (text : String)
    (hbuffer : Emit.isBuffer p name = true ∨ s.context.types.get? name = some .char) :
    (p.run (Emit.assignedType p name text) s).1 = .char ∧
      (p.run (Emit.assignedType p name text) s).2.context.lengths = s.context.lengths := by
  unfold Emit.assignedType
  split
  · exact ⟨rfl, rfl⟩
  · next hnone =>
    have hperform : s.perform (.inferType name text) = (.char, s) := by
      rw [Emission.perform, Action.perform, hbuffer.resolve_left hnone]
    have hrun : p.run (Recipe.perform (.inferType name text)) s = (.char, s) := hperform
    rw [hrun]
    exact ⟨rfl, rfl⟩

/-- The lengths that go with the literal of `t`, of which `length` characters count: those are written
to a file, and one more, the zero behind them, goes into the memory and has room in a buffer. -/
structure Measures (p : Project) (s : Emission) (b : Block) (t : String) (length : Nat) : Prop where
  file : p.has .cardInit = true ∨ p.board.hasCardSocket = true → p.has .fileOpen = true →
    (p.run (Emit.fileWrite p b) s).1 =
      "fwrite(" ++ quote t ++ ", 1, " ++ toString length ++ ", fp);\n"
  memory : Emit.Stored.ofField (p.field b "TYPE") = .text →
    (p.run (Emit.memoryWrite p b) s).1 = "ee_putStr(" ++ quote t ++ ", " ++ toString (length + 1) ++
      ", " ++ (p.run (Emit.memoryAddress p b) s).1 ++ ");\n"
  buffer : Emit.isBuffer p (Emit.variableName p b) = true ∨
      s.context.types.get? (Emit.variableName p b) = some .char →
    (p.run (Emit.assign p b) s).2.context.lengths.get? (Emit.variableName p b) =
      some (max ((s.context.lengths.get? (Emit.variableName p b)).getD 0) (length + 1))

theorem YieldsText.measures {body : String} (h : p.YieldsText s b "VALUE" t)
    (hbody : literalBody? (quote t) = some body) : p.Measures s b t (literalLength body) where
  file hcard hopen := by
    have hactive := p.run_active (Emit.fileWarning? p b) s
    rw [Emit.fileWrite, run_bind, run_fileWarning? hcard hopen]
    dsimp only
    rw [run_bind, ((h.of_active_eq hactive).run_value _).1, run_bind, Emit.textLength, hbody]
    rfl
  memory hstored := by
    have hactive := p.run_active (Emit.memoryAddress p b) s
    rw [Emit.memoryWrite, run_bind, hstored, Emit.writeTo, run_bind,
      ((h.of_active_eq hactive).run_value? _).1, run_bind, Option.getD_some, Emit.storedLength, hbody]
    rfl
  buffer hbuffer := by
    obtain ⟨hvalue, hcontext⟩ := h.run_value .assignment
    rw [← hcontext] at hbuffer
    obtain ⟨htype, hlengths⟩ := run_assignedType (quote t) hbuffer
    rw [Emit.assign, run_bind, hvalue, run_bind, htype, if_pos rfl, run_bind, run_bind,
      Emit.reserveLiteral, hbody, ← hcontext, ← hlengths]
    exact (Ledger.get?_put ..).trans (if_pos (beq_self_eq_true _))

/-- The literal of a text counts as many characters as the text has; these are its bytes, and the
lengths that go with it measure the whole text, exactly if all of them are among the first 128. -/
theorem literalLength_measures (t : String) : ∃ body, literalBody? (quote t) = some body ∧
    literalLength body = t.length ∧ literalLength body ≤ t.utf8ByteSize ∧
    (literalLength body = t.utf8ByteSize ↔ ∀ c ∈ t.toList, c.toNat < 128) ∧
    ∀ (p : Project) (s : Emission) (b : Block), p.YieldsText s b "VALUE" t →
      p.Measures s b t (literalLength body) := by
  have hlength : literalLength (String.ofList (escape t.toList)) = t.length := by
    rw [literalLength, String.toList_ofList, literalCount_escape, String.length_toList]
  have hbytes : t.utf8ByteSize = String.utf8Len t.toList := (String.utf8Len_toList t).symm
  refine ⟨_, literalBody?_quote t, hlength, ?_, ?_, fun p s b h => h.measures (literalBody?_quote t)⟩
  · rw [hlength, hbytes, ← String.length_toList]
    exact length_le_utf8Len _
  · rw [hlength, hbytes, ← String.length_toList]
    exact length_eq_utf8Len_iff

/-- A program that writes a text to a file. -/
def accented : Project where
  workspace :=
    { blocks := #[
        { id := "open", type := "sd_open", next := some 1 },
        { id := "write", type := "sd_write", values := ⟨[("VALUE", 2)]⟩ },
        { id := "text", type := "string_type_block", fields := ⟨[("TEXT", "é")]⟩ }]
      top := [0]
      index := [0, 1, 2] }

/-- Of two bytes one is written. -/
theorem literalLength_measures_accented : ∃ b, accented.workspace.block? 1 = some b ∧
    accented.YieldsText .empty b "VALUE" "é" ∧ "é".utf8ByteSize = 2 ∧
    accented.Measures .empty b "é" 1 ∧
    (accented.run (Emit.fileWrite accented b) .empty).1 = "fwrite(\"é\", 1, 1, fp);\n" := by
  have hyields : accented.YieldsText .empty accented.workspace.blocks[1] "VALUE" "é" :=
    ⟨2, _, rfl, rfl, List.not_mem_nil, rfl⟩
  obtain ⟨body, -, hlength, -, -, hmeasures⟩ := literalLength_measures "é"
  have hone := hmeasures accented .empty _ hyields
  rw [hlength] at hone
  exact ⟨_, rfl, hyields, by decide +kernel, hone, hone.file (.inr rfl) (by decide +kernel)⟩

end Project

/-! ## Printing -/

namespace Emit

/-- What is printed for a format that no argument comes with: two percent signs are one, and a single
one would ask for an argument. -/
def expand? : List Char → Option (List Char)
  | [] => some []
  | '%' :: '%' :: cs => (expand? cs).map ('%' :: ·)
  | c :: cs => if c = '%' then none else (expand? cs).map (c :: ·)

/-- A character as it stands in a format. -/
def formatChar (c : Char) : List Char := if c = '%' then ['%', '%'] else [c]

theorem toList_formatOf (body : String) : (formatOf body).toList = body.toList.flatMap formatChar :=
  String.toList_ofList

theorem expand?_formatChar_append (c : Char) (cs : List Char) :
    expand? (formatChar c ++ cs) = (expand? cs).map (c :: ·) := by
  unfold formatChar
  split
  · next hpercent =>
    subst hpercent
    rfl
  · next hpercent =>
    rw [List.singleton_append, expand?.eq_3, if_neg hpercent]
    rintro ds rfl rfl
    exact absurd rfl hpercent

theorem expand?_formatChars_append (cs rest : List Char) :
    expand? (cs.flatMap formatChar ++ rest) = (expand? rest).map (cs ++ ·) := by
  induction cs with
  | nil => exact (Option.map_id' ..).symm
  | cons c cs ih =>
    rw [List.flatMap_cons, List.append_assoc, expand?_formatChar_append, ih, Option.map_map]
    rfl

/-- No percent sign comes of an escape, so that it does not matter which is done first. -/
theorem flatMap_formatChar_escape (cs : List Char) :
    (escape cs).flatMap formatChar = escape (cs.flatMap formatChar) := by
  have hchar : ∀ c, (escapeChar c).flatMap formatChar = (formatChar c).flatMap escapeChar := by
    intro c
    by_cases hpercent : c = '%'
    · subst hpercent
      rfl
    · rw [formatChar, if_neg hpercent, List.flatMap_singleton]
      unfold escapeChar
      split
      · rfl
      · rfl
      · rfl
      · rfl
      · rw [List.flatMap_singleton, formatChar, if_neg hpercent]
  unfold escape
  rw [List.flatMap_assoc, List.flatMap_assoc, funext hchar]

/-- The code is a call whose one argument is a literal, and the format that this stands for is printed
as the output. -/
def Prints (code output : String) : Prop :=
  ∃ body format, code = "print(\"" ++ body ++ "\");\n" ∧
    literalBody? ("\"" ++ body ++ "\"") = some body ∧ unescape? body.toList = some format ∧
    expand? format = some output.toList

end Emit

namespace Project

variable {p : Project} {b : Block} {t : String} {s : Emission}

/-- In every state, a text block in a block that prints is printed as its text, with a carriage return
behind it if the block asks for one. -/
theorem YieldsText.prints (h : p.YieldsText s b "MESSAGE" t) :
    Emit.Prints (p.run (Emit.print p b) s).1
      (t ++ if p.field b "NEWLINE" = "TRUE" then "\r" else "") := by
  obtain ⟨hvalue, -⟩ := h.run_value .anything
  obtain ⟨ending, hending⟩ :
    ∃ ending, ending = if p.field b "NEWLINE" = "TRUE" then "\r" else "" := ⟨_, rfl⟩
  rw [← hending]
  have hlineEnd : (Emit.lineEnd p b).toList = escape ending.toList := by
    rw [Emit.lineEnd, hending]
    by_cases hnewline : p.field b "NEWLINE" = "TRUE" <;> simp [hnewline, escape, escapeChar]
  have hexpand : Emit.expand? ending.toList = some ending.toList := by
    rw [hending]
    split <;> rfl
  have hbody : (Emit.formatOf (String.ofList (escape t.toList)) ++ Emit.lineEnd p b).toList =
      escape (t.toList.flatMap Emit.formatChar ++ ending.toList) := by
    rw [String.toList_append, Emit.toList_formatOf, String.toList_ofList,
      Emit.flatMap_formatChar_escape, hlineEnd]
    exact List.flatMap_append.symm
  refine ⟨_, _, ?_, literalBody?_of_escape hbody, (congrArg unescape? hbody).trans (unescape?_escape _),
    ?_⟩
  · rw [Emit.print, run_bind, hvalue, literalBody?_quote]
    simp only [String.append_assoc, run_pure]
  · rw [Emit.expand?_formatChars_append, hexpand, String.toList_append]
    rfl

/-- A program that prints a text with a quote, a percent sign and a backslash at its end. -/
def discounted : Project where
  workspace :=
    { blocks := #[
        { id := "print", type := "console_print", fields := ⟨[("NEWLINE", "TRUE")]⟩
          values := ⟨[("MESSAGE", 1)]⟩ },
        { id := "text", type := "string_type_block", fields := ⟨[("TEXT", "\"5%\\")]⟩ }]
      top := [0]
      index := [0, 1] }

theorem YieldsText.prints_discounted : ∃ b, discounted.workspace.block? 0 = some b ∧
    discounted.YieldsText .empty b "MESSAGE" "\"5%\\" ∧
    Emit.Prints "print(\"\\\"5%%\\\\\\r\");\n" "\"5%\\\r" := by
  have hyields : discounted.YieldsText .empty discounted.workspace.blocks[0] "MESSAGE" "\"5%\\" :=
    ⟨1, _, rfl, rfl, List.not_mem_nil, rfl⟩
  have hcode : (discounted.run (Emit.print discounted discounted.workspace.blocks[0]) .empty).1 =
      "print(\"\\\"5%%\\\\\\r\");\n" := by decide +kernel
  have hprints := hyields.prints
  rw [hcode] at hprints
  exact ⟨_, rfl, hyields, hprints⟩

end Project

end BlockCompiler
