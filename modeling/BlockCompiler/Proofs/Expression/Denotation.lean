import BlockCompiler.Proofs.Emission.Nesting
import BlockCompiler.Proofs.Emit.Socket
import BlockCompiler.Proofs.Expression.Writing

set_option autoImplicit false

/-! # What value blocks denote

The expression that a tree of value blocks stands for, block by block and without a word about text,
and the proof that the code made for such a tree is an expression with just that tree, wherever the
tree is plugged in. The grammar has one tree for a text, so nobody who follows it can read the code
in another way. -/

namespace BlockCompiler

/-! ## Plugged blocks -/

namespace Emit

variable {p : Project} {b : Block} {socket : String}

/-- The value of a socket in which nothing takes part in the program is the default. -/
theorem run_value_of_empty (h : p.plugged? b socket = none) (outer : Precedence) (s : Emission) :
    p.run (value p b socket outer) s = (p.socketDefault b socket, s) := by
  simp only [value, value?, operand_of_empty h, pure_bind]
  rfl

/-- The value of a socket in which a block yields an expression. -/
theorem run_value_of_expression {id : BlockId} {child : Block}
    (h : p.plugged? b socket = some (id, child)) (outer : Precedence) (s : Emission) {o : Operand}
    (ho : (p.emit id s).1 = .expression o) :
    p.run (value p b socket outer) s = (o.within outer, (p.emit id s).2) := by
  simp only [value, value?, operand_of_plugged h, Project.run_bind, Project.run_code, ho,
    Project.run_pure, Option.map_some, Option.getD_some]

end Emit

/-! ## Denotation -/

namespace Expression

/-- A place in a tree of blocks: a socket of a block, or a block of a kind. -/
inductive Place where
  | socket (b : Block) (name : String)
  | block (b : Block) (kind : Kind)

/-- The tree of an arithmetic block. -/
def arithmetic (op : String) (l r : Expression) : Expression :=
  match op with
  | "MINUS" => .binary .minus l r
  | "MULTIPLY" => .binary .times l r
  | "DIVIDE" => .binary .divide l r
  | "MODULUS" => .binary .remainder l r
  | "POWER" => .call "pow".toList [l, r]
  | _ => .binary .plus l r

/-- The tree of the lower or the higher of two numbers. -/
def limit (op : String) (l r : Expression) : Expression :=
  .choice (.binary (if op == "MAX" then .greater else .less) l r) l r

/-- The operator of a comparison. -/
def comparison : String → Operator
  | "NEQ" => .unequal
  | "LT" => .less
  | "LTE" => .lessEqual
  | "GT" => .greater
  | "GTE" => .greaterEqual
  | _ => .equal

/-- The operator that joins truth values. -/
def connective (op : String) : Operator := if op == "OR" then .or else .and

/-- The expression that a tree of blocks stands for. A tree is finite, so a block is none of those
around it. -/
inductive Denotes (p : Project) : List BlockId → Place → Expression → Prop where
  | empty {around : List BlockId} {b : Block} {socket : String} {n : Nat} :
    p.plugged? b socket = none → p.socketDefault b socket = toString n →
    Denotes p around (.socket b socket) (.number n)
  | plugged {around : List BlockId} {b child : Block} {socket : String} {id : BlockId} {kind : Kind}
      {e : Expression} :
    p.plugged? b socket = some (id, child) → id ∉ around → child.type = kind.name →
    Denotes p (id :: around) (.block child kind) e → Denotes p around (.socket b socket) e
  | number {around : List BlockId} {b : Block} {n : Int} :
    Text.signed? 10 (Text.trim (p.field b "NUM").toList) = some n →
    Denotes p around (.block b .number) (integer n)
  | arithmetic {around : List BlockId} {b : Block} {l r : Expression} :
    Denotes p around (.socket b "A") l → Denotes p around (.socket b "B") r →
    Denotes p around (.block b .arithmetic) (arithmetic (p.field b "OP") l r)
  | limit {around : List BlockId} {b : Block} {l r : Expression} :
    Denotes p around (.socket b "A") l → Denotes p around (.socket b "B") r →
    Denotes p around (.block b .limit) (limit (p.field b "OP") l r)
  | random {around : List BlockId} {b : Block} {l r : Expression} :
    Denotes p around (.socket b "A") l → Denotes p around (.socket b "B") r →
    Denotes p around (.block b .random) (between l r)
  | boolean {around : List BlockId} {b : Block} :
    Denotes p around (.block b .boolean) (.number (if p.field b "BOOL" == "FALSE" then 0 else 1))
  | compare {around : List BlockId} {b : Block} {l r : Expression} :
    Denotes p around (.socket b "A") l → Denotes p around (.socket b "B") r →
    Denotes p around (.block b .compare) (.binary (comparison (p.field b "OP")) l r)
  | logic {around : List BlockId} {b : Block} {l r : Expression} :
    Denotes p around (.socket b "A") l → Denotes p around (.socket b "B") r →
    Denotes p around (.block b .logic) (.binary (connective (p.field b "OP")) l r)
  | negate {around : List BlockId} {b : Block} {e : Expression} :
    Denotes p around (.socket b "BOOL") e → Denotes p around (.block b .negate) (.unary .not e)
  | readVariable {around : List BlockId} {b : Block} :
    Denotes p around (.block b .readVariable) (.name (Identifier.ofName (p.field b "VAR")).toList)
  | systemCounter {around : List BlockId} {b : Block} :
    Denotes p around (.block b .systemCounter) (.name "CNT".toList)

/-! ## The code of a tree -/

section Code

variable {p : Project} {around : List BlockId} {b : Block}

/-- The code made at a place is an expression with the given tree, as often as it is made inside of
the blocks around the place. -/
def Yields (p : Project) (around : List BlockId) (e : Expression) : Place → Prop
  | .socket b socket => ∀ outer (s : Emission), s.Nested p.workspace → s.active = around →
    Stands outer (p.run (Emit.value p b socket outer) s).1 e
  | .block b kind => ∀ id (s : Emission), s.Nested p.workspace → s.active = around →
    ∃ code, Emit.emitter p id b kind = .value code ∧ Writes (p.run code s).1 e

/-- A socket yields what the block that is plugged in yields. -/
theorem yields_plugged {child : Block} {socket : String} {id : BlockId} {kind : Kind}
    {e : Expression} (h : p.plugged? b socket = some (id, child)) (hid : id ∉ around)
    (hkind : child.type = kind.name) (ih : Yields p (id :: around) e (.block child kind)) :
    Yields p around e (.socket b socket) := by
  intro outer s hs hactive
  obtain ⟨-, hchild, -⟩ := Project.plugged?_eq_some h
  -- the block is not among those around the place, so its recipe is carried out
  have hfree : id ∉ s.active := hactive ▸ hid
  obtain ⟨code, hcode, hwrites⟩ := ih id (s.enter id) (hs.enter hchild hfree)
    (congrArg (id :: ·) hactive)
  have hrecipe : Emit.recipe p id child = (Emitter.value code).fragment := by
    rw [Emit.recipe, Emit.lookup_types, Kind.ofName?_eq_some_iff.2 hkind.symm, ← hcode]
  have hemit : (p.emit id s).1 = .expression (p.run code (s.enter id)).1 := by
    rw [Project.emit_of_not_active hchild hs hfree, hrecipe, Emitter.fragment, Project.run_bind,
      Project.run_pure]
  rw [Emit.run_value_of_expression h outer s hemit]
  exact hwrites.within outer

section Operands

variable {l r : Expression} {s : Emission} (hl : Yields p around l (.socket b "A"))
  (hr : Yields p around r (.socket b "B")) (hs : s.Nested p.workspace) (hactive : s.active = around)

include hl hr hs hactive

/-- Two operands, of which the second is made after the first. -/
theorem yields_operands (outer : Precedence) :
    Stands outer (p.run (Emit.value p b "A" outer) s).1 l ∧
      Stands outer
        (p.run (Emit.value p b "B" outer) (p.run (Emit.value p b "A" outer) s).2).1 r := by
  have hkeep := p.run_active (Emit.value p b "A" outer) s
  exact ⟨hl outer s hs hactive, hr outer _ (hs.of_active_eq hkeep) (hkeep.trans hactive)⟩

theorem writes_binary {order : Precedence} {o : Operator} {sign : String}
    (hrank : order.level = o.rank + 1) (hsign : sign.toList = o.sign) :
    Writes (p.run (Emit.binary p b sign order) s).1 (.binary o l r) := by
  obtain ⟨hleft, hright⟩ := yields_operands hl hr hs hactive order
  simp only [Emit.binary, Project.run_bind, Project.run_pure]
  exact .binary hrank hsign hleft hright

theorem writes_arithmetic :
    Writes (p.run (Emit.arithmetic p b) s).1 (arithmetic (p.field b "OP") l r) := by
  unfold Emit.arithmetic arithmetic
  generalize p.field b "OP" = op
  split
  · exact writes_binary hl hr hs hactive rfl rfl
  · exact writes_binary hl hr hs hactive rfl rfl
  · exact writes_binary hl hr hs hactive rfl rfl
  · exact writes_binary hl hr hs hactive rfl rfl
  · obtain ⟨hleft, hright⟩ := yields_operands hl hr hs hactive .anything
    simp only [Emit.power, Project.run_bind, Project.run_pure]
    exact .power hleft hright
  · -- the tree goes by the same names, so only its last case is left as well
    try split
    all_goals first | contradiction | exact writes_binary hl hr hs hactive rfl rfl

theorem writes_limit : Writes (p.run (Emit.limit p b) s).1 (limit (p.field b "OP") l r) := by
  obtain ⟨hleft, hright⟩ := yields_operands hl hr hs hactive .relational
  simp only [Emit.limit, limit, Project.run_bind, Project.run_pure]
  split
  · exact .limit rfl rfl hleft hright
  · exact .limit rfl rfl hleft hright

theorem writes_compare :
    Writes (p.run (Emit.compare p b) s).1 (.binary (comparison (p.field b "OP")) l r) := by
  unfold Emit.compare comparison
  generalize p.field b "OP" = op
  split
  · exact writes_binary hl hr hs hactive rfl rfl
  · exact writes_binary hl hr hs hactive rfl rfl
  · exact writes_binary hl hr hs hactive rfl rfl
  · exact writes_binary hl hr hs hactive rfl rfl
  · exact writes_binary hl hr hs hactive rfl rfl
  · -- the tree goes by the same names, so only its last case is left as well
    try split
    all_goals first | contradiction | exact writes_binary hl hr hs hactive rfl rfl

theorem writes_logic :
    Writes (p.run (Emit.logic p b) s).1 (.binary (connective (p.field b "OP")) l r) := by
  unfold Emit.logic connective
  split <;> exact writes_binary hl hr hs hactive rfl rfl

theorem writes_random : Writes (p.run (Emit.random p b) s).1 (between l r) := by
  have hkeep := p.run_active (Recipe.ensure .setups "random_seed" "srand(INA + CNT);") s
  obtain ⟨hleft, hright⟩ := yields_operands hl hr (hs.of_active_eq hkeep) (hkeep.trans hactive)
    .additive
  simp only [Emit.random, Project.run_bind, Project.run_pure]
  exact .between hleft hright

end Operands

/-- The code of a tree is an expression with the tree that the blocks denote. -/
theorem Denotes.yields {place : Place} {e : Expression} (h : Denotes p around place e) :
    Yields p around e place := by
  induction h with
  | empty h hdefault =>
    intro outer s hs hactive
    rw [Emit.run_value_of_empty h outer s, hdefault]
    have hwrites := Writes.number ‹Nat›
    exact ⟨hwrites.derives.looser (Nat.zero_le _), hwrites.bare⟩
  | plugged h hid hkind hblock ih => exact yields_plugged h hid hkind ih
  | @number around b n h =>
    intro id s hs hactive
    refine ⟨_, rfl, ?_⟩
    have hliteral : Emit.numberLiteral (p.field b "NUM") = toString n := by
      rw [Emit.numberLiteral, h]
    simp only [Emit.number, hliteral, Project.run_pure]
    exact .integer n
  | arithmetic _ _ ihl ihr =>
    exact fun id s hs hactive => ⟨_, rfl, writes_arithmetic ihl ihr hs hactive⟩
  | limit _ _ ihl ihr => exact fun id s hs hactive => ⟨_, rfl, writes_limit ihl ihr hs hactive⟩
  | random _ _ ihl ihr => exact fun id s hs hactive => ⟨_, rfl, writes_random ihl ihr hs hactive⟩
  | boolean =>
    intro id s hs hactive
    refine ⟨_, rfl, ?_⟩
    simp only [Emit.boolean, Project.run_pure]
    split
    · exact .number 0
    · exact .number 1
  | compare _ _ ihl ihr => exact fun id s hs hactive => ⟨_, rfl, writes_compare ihl ihr hs hactive⟩
  | logic _ _ ihl ihr => exact fun id s hs hactive => ⟨_, rfl, writes_logic ihl ihr hs hactive⟩
  | negate _ ih =>
    intro id s hs hactive
    refine ⟨_, rfl, ?_⟩
    simp only [Emit.negate, Project.run_bind, Project.run_pure]
    exact .negate (ih .unaryPrefix s hs hactive)
  | readVariable => exact fun _ _ _ _ => ⟨_, rfl, .name (isName_ofName _)⟩
  | systemCounter =>
    have hname : IsName "CNT".toList := ⟨by decide, 'C', ['N', 'T'], rfl, by decide⟩
    exact fun _ _ _ _ => ⟨_, rfl, .name hname⟩

theorem isName_input : IsName "input".toList := ⟨by decide, 'i', "nput".toList, rfl, by decide⟩

/-- The code that reads a pin from a menu calls the library with the pin. -/
theorem yields_checkPin {n : Nat} (hsource : PinSource.ofBlock b "PIN" = .fixed)
    (hpin : p.field b "PIN" = toString n) :
    Yields p around (.call "input".toList [.number n]) (.block b .checkPin) := by
  have hchosen : (toString n).isEmpty = false := by
    rw [String.isEmpty_eq_false_iff]
    exact fun h => Nat.toDigits_ne_nil (by rw [← Nat.toList_repr]; exact congrArg String.toList h)
  refine fun id s _ _ => ⟨_, rfl, ?_⟩
  simp only [Emit.checkPin, Emit.pin, hsource, hpin, hchosen, Project.run_bind, Project.run_pure]
  exact .answer isName_input ((Writes.number n).within .anything)

end Code

/-! ## Trees -/

/-- The sockets whose values a kind joins into an expression, if it is such a kind. -/
def operandSockets : Kind → Option (List String)
  | .number | .boolean | .readVariable | .systemCounter => some []
  | .arithmetic | .limit | .random | .compare | .logic => some ["A", "B"]
  | .negate => some ["BOOL"]
  | _ => none

/-- A finite tree of blocks that are joined into an expression, with any of their sockets empty.
Every number in it is a decimal one of 64 bits. -/
inductive Tree (p : Project) : List BlockId → Place → Prop where
  | empty {around : List BlockId} {b : Block} {socket : String} :
    p.plugged? b socket = none → Tree p around (.socket b socket)
  | plugged {around : List BlockId} {b child : Block} {socket : String} {id : BlockId}
      {kind : Kind} :
    p.plugged? b socket = some (id, child) → id ∉ around → child.type = kind.name →
    Tree p (id :: around) (.block child kind) → Tree p around (.socket b socket)
  | block {around : List BlockId} {b : Block} {kind : Kind} {sockets : List String} :
    operandSockets kind = some sockets →
    (kind = .number → (Text.signed? 10 (Text.trim (p.field b "NUM").toList)).isSome) →
    (∀ socket ∈ sockets, Tree p around (.socket b socket)) → Tree p around (.block b kind)

variable {p : Project}

/-- What stands for the empty sockets of an operator is a number. -/
theorem default_number {kind : Kind} (h : (operandSockets kind).isSome) (board : Board) :
    ∀ input ∈ (kind.definition board).inputs, ∃ n : Nat, input.kind = .value (toString n) := by
  have hzero : ∀ name, ∃ n : Nat, (Catalog.value name "0").kind = .value (toString n) :=
    fun _ => ⟨0, rfl⟩
  cases kind with
  | number | boolean | readVariable | systemCounter => exact List.forall_mem_nil _
  | arithmetic | limit | compare | logic =>
    exact List.forall_mem_cons.2 ⟨hzero "A", List.forall_mem_cons.2 ⟨hzero "B", List.forall_mem_nil _⟩⟩
  | random =>
    exact List.forall_mem_cons.2 ⟨⟨1, rfl⟩, List.forall_mem_cons.2 ⟨⟨100, rfl⟩, List.forall_mem_nil _⟩⟩
  | negate => exact List.forall_mem_cons.2 ⟨hzero "BOOL", List.forall_mem_nil _⟩
  | _ => cases h

theorem socketDefault_number {kind : Kind} (h : (operandSockets kind).isSome) {b : Block}
    (hb : b.type = kind.name) (socket : String) : ∃ n : Nat, p.socketDefault b socket = toString n := by
  have hdefinition : p.definition? b = some (kind.definition p.board) := by
    rw [Project.definition?, Definition.ofType?_eq, Kind.ofName?_eq_some_iff.2 hb.symm]
    rfl
  rw [Project.socketDefault, hdefinition, Option.bind_some, Definition.valueDefault?]
  cases hinput : (kind.definition p.board).input? socket with
  | none => exact ⟨0, rfl⟩
  | some input =>
    obtain ⟨n, hn⟩ := default_number h p.board input (List.mem_of_find?_eq_some hinput)
    exact ⟨n, by rw [Option.bind_some, hn]; rfl⟩

/-- Every finite tree denotes an expression. -/
theorem Tree.exists_denotes {around : List BlockId} {place : Place} (h : Tree p around place) :
    match place with
    | .socket b socket =>
      (p.plugged? b socket = none → ∃ n : Nat, p.socketDefault b socket = toString n) →
        ∃ e, Denotes p around (.socket b socket) e
    | .block b kind => b.type = kind.name → ∃ e, Denotes p around (.block b kind) e := by
  -- a socket has to know its default only where it is empty
  induction h with
  | empty h =>
    intro hdefault
    obtain ⟨n, hn⟩ := hdefault h
    exact ⟨_, .empty h hn⟩
  | plugged h hid hkind _ ih =>
    intro _
    obtain ⟨e, he⟩ := ih hkind
    exact ⟨e, .plugged h hid hkind he⟩
  | @block around b kind sockets hsockets hnumber _ ih =>
    intro hb
    have hsome : (operandSockets kind).isSome := by rw [hsockets]; rfl
    have hoperand : ∀ socket ∈ sockets, ∃ e, Denotes p around (.socket b socket) e := fun socket hs =>
      ih socket hs fun _ => socketDefault_number hsome hb socket
    have hboth : sockets = ["A", "B"] → ∃ l r, Denotes p around (.socket b "A") l ∧
        Denotes p around (.socket b "B") r := by
      rintro rfl
      obtain ⟨l, hl⟩ := hoperand "A" (by decide)
      obtain ⟨r, hr⟩ := hoperand "B" (by decide)
      exact ⟨l, r, hl, hr⟩
    cases kind with
    | number =>
      obtain ⟨n, hn⟩ := Option.isSome_iff_exists.1 (hnumber rfl)
      exact ⟨_, .number hn⟩
    | boolean => exact ⟨_, .boolean⟩
    | readVariable => exact ⟨_, .readVariable⟩
    | systemCounter => exact ⟨_, .systemCounter⟩
    | arithmetic =>
      obtain ⟨l, r, hl, hr⟩ := hboth (Option.some_inj.1 hsockets.symm)
      exact ⟨_, .arithmetic hl hr⟩
    | limit =>
      obtain ⟨l, r, hl, hr⟩ := hboth (Option.some_inj.1 hsockets.symm)
      exact ⟨_, .limit hl hr⟩
    | random =>
      obtain ⟨l, r, hl, hr⟩ := hboth (Option.some_inj.1 hsockets.symm)
      exact ⟨_, .random hl hr⟩
    | compare =>
      obtain ⟨l, r, hl, hr⟩ := hboth (Option.some_inj.1 hsockets.symm)
      exact ⟨_, .compare hl hr⟩
    | logic =>
      obtain ⟨l, r, hl, hr⟩ := hboth (Option.some_inj.1 hsockets.symm)
      exact ⟨_, .logic hl hr⟩
    | negate =>
      obtain rfl : ["BOOL"] = sockets := Option.some_inj.1 hsockets
      obtain ⟨e, he⟩ := hoperand "BOOL" (by decide)
      exact ⟨_, .negate he⟩
    | _ => cases hsome

variable {s : Emission} {b : Block} {socket : String}

/-- The code of a tree of value blocks, made for any place, is one operand there. It is read as the
expression that the blocks denote and as no other. -/
theorem Tree.exists_reading {id : BlockId} {child : Block}
    (hplugged : p.plugged? b socket = some (id, child)) (h : Tree p s.active (.socket b socket))
    (hs : s.Nested p.workspace) (outer : Precedence) :
    ∃ e, (∀ e', Denotes p s.active (.socket b socket) e' ↔ e' = e) ∧
      Derives (operandRank outer) (scan (p.run (Emit.value p b socket outer) s).1.toList) e ∧
      ∀ k e', Derives k (scan (p.run (Emit.value p b socket outer) s).1.toList) e' → e' = e := by
  -- the tree denotes something, its text has that reading, and no text has two
  obtain ⟨e, he⟩ := h.exists_denotes fun hempty => absurd (hplugged.symm.trans hempty) nofun
  have hstands := he.yields outer s hs rfl
  refine ⟨e, fun e' => ⟨fun he' => ?_, fun heq => heq ▸ he⟩, hstands.derives,
    fun k e' h' => h'.unique hstands.derives⟩
  exact (he'.yields outer s hs rfl).derives.unique hstands.derives

/-- A pause whose time is a product, of a difference with an empty socket and of a variable. -/
def scaledPause : Workspace where
  blocks := #[
    { id := "pause", type := "pause", values := ⟨[("PAUSE_TIME", 1)]⟩ },
    { id := "product", type := "math_arithmetic", fields := ⟨[("OP", "MULTIPLY")]⟩,
      values := ⟨[("A", 2), ("B", 4)]⟩ },
    { id := "difference", type := "math_arithmetic", fields := ⟨[("OP", "MINUS")]⟩,
      values := ⟨[("B", 3)]⟩ },
    { id := "number", type := "math_number", fields := ⟨[("NUM", "-5")]⟩ },
    { id := "variable", type := "variables_get", fields := ⟨[("VAR", "i")]⟩ }]

theorem tree_scaledPause :
    Tree ⟨scaledPause, .standard⟩ [] (.socket scaledPause.blocks[0] "PAUSE_TIME") := by
  have hnumber : Tree ⟨scaledPause, .standard⟩ [3, 2, 1] (.block scaledPause.blocks[3] .number) :=
    .block rfl (fun _ => by decide) (List.forall_mem_nil _)
  have hvariable : Tree ⟨scaledPause, .standard⟩ [4, 1]
      (.block scaledPause.blocks[4] .readVariable) :=
    .block rfl nofun (List.forall_mem_nil _)
  have hdifference : Tree ⟨scaledPause, .standard⟩ [2, 1]
      (.block scaledPause.blocks[2] .arithmetic) := by
    refine .block rfl nofun (List.forall_mem_cons.2 ⟨.empty rfl, List.forall_mem_cons.2 ⟨?_, ?_⟩⟩)
    · exact .plugged rfl (by decide) rfl hnumber
    · exact List.forall_mem_nil _
  have hproduct : Tree ⟨scaledPause, .standard⟩ [1] (.block scaledPause.blocks[1] .arithmetic) := by
    refine .block rfl nofun (List.forall_mem_cons.2 ⟨?_, List.forall_mem_cons.2 ⟨?_, ?_⟩⟩)
    · exact .plugged rfl (by decide) rfl hdifference
    · exact .plugged rfl (by decide) rfl hvariable
    · exact List.forall_mem_nil _
  exact .plugged rfl (by decide) rfl hproduct

/-- The time of the pause as an operand of a product: `((0 - -5) * i)`. -/
theorem Tree.exists_reading_scaledPause :
    let text := (Project.run ⟨scaledPause, .standard⟩ (Emit.value ⟨scaledPause, .standard⟩
      scaledPause.blocks[0] "PAUSE_TIME" .multiplicative) .empty).1
    text = "((0 - -5) * i)" ∧
      ∃ e, (∀ e', Denotes ⟨scaledPause, .standard⟩ [] (.socket scaledPause.blocks[0] "PAUSE_TIME") e'
          ↔ e' = e) ∧
        Derives (operandRank .multiplicative) (scan text.toList) e ∧
        ∀ k e', Derives k (scan text.toList) e' → e' = e := by
  refine ⟨by decide, ?_⟩
  exact Tree.exists_reading rfl tree_scaledPause (Emission.Nested.empty _) .multiplicative

end Expression

end BlockCompiler
