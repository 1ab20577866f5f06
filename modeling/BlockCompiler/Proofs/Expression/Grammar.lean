import BlockCompiler.Proofs.Expression.Token

set_option autoImplicit false

/-! # The grammar of C expressions

What the tokens of an expression mean: the tree that the grammar of C gives them. The grammar is a
relation that follows C's own rules one by one, with a rank for each of its levels. That tokens have
at most one tree is no matter of course for such a relation. It is shown with a reader that goes
through the tokens once and holds on a stack what is not complete yet: whatever the grammar derives
is what the reader finds, and the reader finds one tree. -/

namespace BlockCompiler

/-! ## Trees -/

/-- The operators in front of an operand. -/
inductive Expression.Sign where
  | minus
  | not
  deriving Repr, DecidableEq

/-- The tree of an expression. -/
inductive Expression where
  | number (n : Nat)
  | name (text : List Char)
  | call (function : List Char) (arguments : List Expression)
  | unary (sign : Expression.Sign) (operand : Expression)
  | binary (o : Expression.Operator) (left right : Expression)
  /-- One of two values, as a test turns out. -/
  | choice (test yes no : Expression)

namespace Expression

/-! ## Derivations -/

/-- The rank of an operator's level: the higher, the looser the operator binds. Names, numbers,
calls and anything in parentheses have rank 0, signs rank 1 and choices rank 12. -/
def Operator.rank : Operator → Nat
  | .times | .divide | .remainder => 2
  | .plus | .minus => 3
  | .shiftLeft | .shiftRight => 4
  | .less | .lessEqual | .greater | .greaterEqual => 5
  | .equal | .unequal => 6
  | .bitAnd => 7
  | .bitXor => 8
  | .bitOr => 9
  | .and => 10
  | .or => 11

/-- The token of a sign. -/
def Sign.token : Sign → Token
  | .minus => .operator .minus
  | .not => .not

/-- An argument of a call with the comma in front of it. -/
def further (a : List Token × Expression) : List Token := .comma :: a.1

/-- The grammar: tokens are an expression of a rank with the given tree. -/
inductive Derives : Nat → List Token → Expression → Prop where
  | number (n : Nat) : Derives 0 [.number n] (.number n)
  | name (x : List Char) : Derives 0 [.name x] (.name x)
  | callEmpty (f : List Char) : Derives 0 [.name f, .opening, .closing] (.call f [])
  | call (f : List Char) {ts : List Token} {e : Expression} {more : List (List Token × Expression)} :
    Derives 12 ts e → (∀ a ∈ more, Derives 12 a.1 a.2) →
    Derives 0 (.name f :: .opening :: ts ++ more.flatMap further ++ [.closing])
      (.call f (e :: more.map Prod.snd))
  | parens {ts : List Token} {e : Expression} :
    Derives 12 ts e → Derives 0 (.opening :: ts ++ [.closing]) e
  /-- An operand stands wherever a looser one does. -/
  | looser {k l : Nat} {ts : List Token} {e : Expression} :
    Derives k ts e → k ≤ l → Derives l ts e
  | unary (u : Sign) {ts : List Token} {e : Expression} :
    Derives 1 ts e → Derives 1 (u.token :: ts) (.unary u e)
  /-- Operators of one level are taken from left to right. -/
  | binary (o : Operator) {ts us : List Token} {l r : Expression} :
    Derives o.rank ts l → Derives (o.rank - 1) us r →
    Derives o.rank (ts ++ .operator o :: us) (.binary o l r)
  | choice {ts us vs : List Token} {c y n : Expression} :
    Derives 11 ts c → Derives 12 us y → Derives 12 vs n →
    Derives 12 (ts ++ .question :: us ++ .colon :: vs) (.choice c y n)

/-! ## Reading -/

/-- Something that waits for an operand. -/
inductive Frame where
  | sign (u : Sign)
  | right (l : Expression) (o : Operator)
  | no (c y : Expression)
  | yes (c : Expression)
  | parens
  | argument (f : List Char) (before : List Expression)

namespace Frame

/-- The rank of what is complete as soon as the operand is; what a token has to close by itself has
a rank above all. -/
def rank : Frame → Nat
  | .sign _ => 1
  | .right _ o => o.rank
  | .no _ _ => 12
  | .yes _ | .parens | .argument _ _ => 13

/-- What is complete with the operand. -/
def fill (e : Expression) : Frame → Expression
  | .sign u => .unary u e
  | .right l o => .binary o l e
  | .no c y => .choice c y e
  | .yes _ | .parens | .argument _ _ => e

end Frame

/-- Completes everything on the stack that binds as tightly as rank `k` or tighter. -/
def settle (k : Nat) : List Frame → Expression → List Frame × Expression
  | [], e => ([], e)
  | f :: stack, e => if f.rank ≤ k then settle k stack (f.fill e) else (f :: stack, e)

/-- The loosest rank that a token completes behind an operand. -/
def Token.completes : Token → Nat
  | .operator o => o.rank
  | .question => 11
  | .colon | .comma | .closing => 12
  | _ => 0

/-- A stack, and the operand on top of it unless one has to come. -/
abbrev Reading := List Frame × Option Expression

/-- Reads a token where an operand has to come. -/
def start (stack : List Frame) : Token → Option Reading
  | .number n => some (stack, some (.number n))
  | .name x => some (stack, some (.name x))
  | .operator .minus => some (.sign .minus :: stack, none)
  | .not => some (.sign .not :: stack, none)
  | .opening => some (.parens :: stack, none)
  | .closing =>
    match stack with
    | .argument f [] :: stack => some (stack, some (.call f []))
    | _ => none
  | _ => none

/-- Reads a token behind an operand that nothing on the stack waits for any longer. -/
def proceed (stack : List Frame) (e : Expression) : Token → Option Reading
  | .operator o => some (.right e o :: stack, none)
  | .question => some (.yes e :: stack, none)
  | .opening =>
    match e with
    | .name f => some (.argument f [] :: stack, none)
    | _ => none
  | .colon =>
    match stack with
    | .yes c :: stack => some (.no c e :: stack, none)
    | _ => none
  | .comma =>
    match stack with
    | .argument f before :: stack => some (.argument f (before ++ [e]) :: stack, none)
    | _ => none
  | .closing =>
    match stack with
    | .argument f before :: stack => some (stack, some (.call f (before ++ [e])))
    | .parens :: stack => some (stack, some e)
    | _ => none
  | _ => none

/-- The tree that is complete at the end. -/
def finish : List Frame × Expression → Option Expression
  | ([], e) => some e
  | _ => none

/-- Reads the rest of the tokens of an expression. -/
def readFrom : List Frame → Option Expression → List Token → Option Expression
  | _, none, [] => none
  | stack, some e, [] => finish (settle 12 stack e)
  | stack, none, t :: ts => (start stack t).bind fun r => readFrom r.1 r.2 ts
  | stack, some e, t :: ts =>
    let settled := settle t.completes stack e
    (proceed settled.1 settled.2 t).bind fun r => readFrom r.1 r.2 ts

/-! ## What the grammar derives is read -/

theorem Operator.two_le_rank (o : Operator) : 2 ≤ o.rank := by
  cases o <;> decide

theorem Operator.rank_le_eleven (o : Operator) : o.rank ≤ 11 := by
  cases o <;> decide

theorem Frame.rank_pos (f : Frame) : 0 < f.rank := by
  cases f with
  | right l o => exact Nat.lt_of_lt_of_le Nat.two_pos o.two_le_rank
  | _ => exact Nat.succ_pos _

/-- Nothing on the stack is completed while an expression of rank `k` is read: an operator or a
question mark in it completes less. -/
def Waits (k : Nat) (stack : List Frame) : Prop :=
  ∀ f ∈ stack.head?, ∀ j, 2 ≤ j → j ≤ k → j ≤ 11 → j < f.rank

/-- What follows completes everything up to rank `k`. -/
def Follows (k : Nat) (ts : List Token) : Prop := ∀ t ∈ ts.head?, k ≤ t.completes

theorem Waits.nil (k : Nat) : Waits k [] := fun _ h => nomatch h

theorem Waits.mono {k l : Nat} {stack : List Frame} (h : Waits l stack) (hkl : k ≤ l) :
    Waits k stack :=
  fun f hf j h2 hj h11 => h f hf j h2 (Nat.le_trans hj hkl) h11

theorem Waits.cons {k : Nat} {f : Frame} (hf : min k 11 < f.rank ∨ k ≤ 1) (stack : List Frame) :
    Waits k (f :: stack) := by
  intro g hg j h2 hj h11
  obtain rfl : f = g := Option.some_inj.1 hg
  omega

theorem Waits.settle_eq {k j : Nat} {stack : List Frame} (h : Waits k stack) (h2 : 2 ≤ j)
    (hj : j ≤ k) (h11 : j ≤ 11) (e : Expression) : settle j stack e = (stack, e) := by
  cases stack with
  | nil => rfl
  | cons f stack => exact if_neg (Nat.not_le.2 (h f rfl j h2 hj h11))

theorem Follows.nil (k : Nat) : Follows k [] := fun _ h => nomatch h

theorem Follows.cons {k : Nat} {t : Token} (h : k ≤ t.completes) (ts : List Token) :
    Follows k (t :: ts) := by
  intro u hu
  obtain rfl : t = u := Option.some_inj.1 hu
  exact h

theorem Follows.mono {k l : Nat} {ts : List Token} (h : Follows l ts) (hkl : k ≤ l) :
    Follows k ts :=
  fun t ht => Nat.le_trans hkl (h t ht)

/-- What waits is completed by what follows. -/
theorem readFrom_fill {k : Nat} {f : Frame} {ts : List Token} (hf : f.rank ≤ k) (h12 : k ≤ 12)
    (hts : Follows k ts) (stack : List Frame) (e : Expression) :
    readFrom (f :: stack) (some e) ts = readFrom stack (some (f.fill e)) ts := by
  cases ts with
  | nil => rw [readFrom, readFrom, settle, if_pos (Nat.le_trans hf h12)]
  | cons t ts => rw [readFrom, readFrom, settle, if_pos (Nat.le_trans hf (hts t rfl))]

theorem readFrom_operator {o : Operator} {stack : List Frame} (h : Waits o.rank stack)
    (l : Expression) (ts : List Token) :
    readFrom stack (some l) (.operator o :: ts) = readFrom (.right l o :: stack) none ts := by
  rw [readFrom, Token.completes, h.settle_eq o.two_le_rank (Nat.le_refl _) o.rank_le_eleven]
  rfl

theorem readFrom_question {stack : List Frame} (h : Waits 12 stack) (c : Expression)
    (ts : List Token) :
    readFrom stack (some c) (.question :: ts) = readFrom (.yes c :: stack) none ts := by
  rw [readFrom, Token.completes, h.settle_eq (by decide) (by decide) (Nat.le_refl 11)]
  rfl

/-- An opening parenthesis behind a name completes nothing. -/
theorem readFrom_opening (f : List Char) (stack : List Frame) (ts : List Token) :
    readFrom stack (some (.name f)) (.opening :: ts) =
      readFrom (.argument f [] :: stack) none ts := by
  -- an opening parenthesis completes rank 0, and every frame is looser
  have hsettle : settle Token.opening.completes stack (.name f) = (stack, .name f) := by
    cases stack with
    | nil => rfl
    | cons g stack => exact if_neg (Nat.not_le.2 g.rank_pos)
  rw [readFrom, hsettle]
  rfl

theorem follows_further (more : List (List Token × Expression)) {rest : List Token}
    (h : Follows 12 rest) : Follows 12 (more.flatMap further ++ rest) := by
  cases more with
  | nil => exact h
  | cons a more => exact Follows.cons (Nat.le_refl 12) _

/-- The arguments behind the first one are read. -/
theorem readFrom_further {more : List (List Token × Expression)}
    (ih : ∀ a ∈ more, ∀ stack rest, Waits 12 stack → Follows 12 rest →
      readFrom stack none (a.1 ++ rest) = readFrom stack (some a.2) rest)
    (f : List Char) (before : List Expression) (e : Expression) (stack : List Frame)
    (rest : List Token) :
    readFrom (.argument f before :: stack) (some e) (more.flatMap further ++ .closing :: rest) =
      readFrom stack (some (.call f (before ++ e :: more.map Prod.snd))) rest := by
  induction more generalizing before e with
  | nil => rfl
  | cons a more ihmore =>
    have hwaits : Waits 12 (.argument f (before ++ [e]) :: stack) :=
      Waits.cons (by simp [Frame.rank]) stack
    have hfollows : Follows 12 (more.flatMap further ++ .closing :: rest) :=
      follows_further more (Follows.cons (Nat.le_refl 12) rest)
    calc readFrom (.argument f before :: stack) (some e)
          ((a :: more).flatMap further ++ .closing :: rest)
        = readFrom (.argument f (before ++ [e]) :: stack) none
            (a.1 ++ (more.flatMap further ++ .closing :: rest)) := by
          rw [List.flatMap_cons, further, List.cons_append, List.cons_append, List.append_assoc]
          rfl
      _ = readFrom (.argument f (before ++ [e]) :: stack) (some a.2)
            (more.flatMap further ++ .closing :: rest) :=
          ih a List.mem_cons_self _ _ hwaits hfollows
      _ = readFrom stack (some (.call f (before ++ [e] ++ a.2 :: more.map Prod.snd))) rest :=
          ihmore (fun b hb => ih b (List.mem_cons_of_mem a hb)) _ _
      _ = _ := by rw [List.append_assoc, List.singleton_append, List.map_cons]

/-- Tokens that the grammar derives leave their tree behind, whatever waits for it. -/
theorem Derives.readFrom_append {k : Nat} {ts : List Token} {e : Expression} (h : Derives k ts e)
    (stack : List Frame) (rest : List Token) (hstack : Waits k stack) (hrest : Follows k rest) :
    readFrom stack none (ts ++ rest) = readFrom stack (some e) rest := by
  -- on the derivation, for all stacks that wait and for all that may follow
  induction h generalizing stack rest with
  | number n => rfl
  | name x => rfl
  | callEmpty f =>
    show readFrom stack (some (.name f)) (.opening :: .closing :: rest) = _
    rw [readFrom_opening]
    rfl
  | @call f ts e more h hmore ih ihmore =>
    have hwaits : Waits 12 (.argument f [] :: stack) := Waits.cons (by simp [Frame.rank]) stack
    have hfollows : Follows 12 (more.flatMap further ++ .closing :: rest) :=
      follows_further more (Follows.cons (Nat.le_refl 12) rest)
    calc readFrom stack none (.name f :: .opening :: ts ++ more.flatMap further ++ [.closing] ++ rest)
        = readFrom stack (some (.name f))
            (.opening :: (ts ++ (more.flatMap further ++ .closing :: rest))) := by
          simp only [List.cons_append, List.append_assoc, List.nil_append]
          rfl
      _ = readFrom (.argument f [] :: stack) none (ts ++ (more.flatMap further ++ .closing :: rest)) :=
          readFrom_opening f stack _
      _ = readFrom (.argument f [] :: stack) (some e) (more.flatMap further ++ .closing :: rest) :=
          ih _ _ hwaits hfollows
      _ = _ := readFrom_further ihmore f [] e stack rest
  | @parens ts e h ih =>
    have hwaits : Waits 12 (.parens :: stack) := Waits.cons (by simp [Frame.rank]) stack
    calc readFrom stack none (.opening :: ts ++ [.closing] ++ rest)
        = readFrom (.parens :: stack) none (ts ++ .closing :: rest) := by
          rw [List.append_assoc, List.cons_append]
          rfl
      _ = readFrom (.parens :: stack) (some e) (.closing :: rest) :=
          ih _ _ hwaits (Follows.cons (Nat.le_refl 12) rest)
      _ = _ := rfl
  | looser h hkl ih => exact ih stack rest (hstack.mono hkl) (hrest.mono hkl)
  | @unary u ts e h ih =>
    have hwaits : Waits 1 (.sign u :: stack) := Waits.cons (.inr (Nat.le_refl 1)) stack
    calc readFrom stack none (u.token :: ts ++ rest)
        = readFrom (.sign u :: stack) none (ts ++ rest) := by cases u <;> rfl
      _ = readFrom (.sign u :: stack) (some e) rest := ih _ _ hwaits hrest
      _ = _ := readFrom_fill (Nat.le_refl 1) (by decide) hrest stack e
  -- the left operand is complete before the operator is read, the right one before what follows
  | @binary o ts us l r hl hr ihl ihr =>
    have hwaits : Waits (o.rank - 1) (.right l o :: stack) :=
      Waits.cons (.inl (by have := o.two_le_rank; simp only [Frame.rank]; omega)) stack
    calc readFrom stack none (ts ++ .operator o :: us ++ rest)
        = readFrom stack none (ts ++ .operator o :: (us ++ rest)) := by
          rw [List.append_assoc, List.cons_append]
      _ = readFrom stack (some l) (.operator o :: (us ++ rest)) :=
          ihl _ _ hstack (Follows.cons (Nat.le_refl o.rank) _)
      _ = readFrom (.right l o :: stack) none (us ++ rest) := readFrom_operator hstack l _
      _ = readFrom (.right l o :: stack) (some r) rest :=
          ihr _ _ hwaits (hrest.mono (Nat.sub_le _ _))
      _ = _ := readFrom_fill (Nat.le_refl o.rank) (Nat.le_succ_of_le o.rank_le_eleven) hrest stack r
  | @choice ts us vs c y n hc hy hn ihc ihy ihn =>
    have hyes : Waits 12 (.yes c :: stack) := Waits.cons (by simp [Frame.rank]) stack
    have hno : Waits 12 (.no c y :: stack) := Waits.cons (by simp [Frame.rank]) stack
    calc readFrom stack none (ts ++ .question :: us ++ .colon :: vs ++ rest)
        = readFrom stack none (ts ++ .question :: (us ++ .colon :: (vs ++ rest))) := by
          simp only [List.append_assoc, List.cons_append]
      _ = readFrom stack (some c) (.question :: (us ++ .colon :: (vs ++ rest))) :=
          ihc _ _ (hstack.mono (by decide)) (Follows.cons (Nat.le_refl 11) _)
      _ = readFrom (.yes c :: stack) none (us ++ .colon :: (vs ++ rest)) :=
          readFrom_question hstack c _
      _ = readFrom (.yes c :: stack) (some y) (.colon :: (vs ++ rest)) :=
          ihy _ _ hyes (Follows.cons (Nat.le_refl 12) _)
      _ = readFrom (.no c y :: stack) none (vs ++ rest) := rfl
      _ = readFrom (.no c y :: stack) (some n) rest := ihn _ _ hno hrest
      _ = _ := readFrom_fill (Nat.le_refl 12) (Nat.le_refl 12) hrest stack n

/-- Tokens have at most one tree, of whatever rank. -/
theorem Derives.unique {k l : Nat} {ts : List Token} {e e' : Expression} (h : Derives k ts e)
    (h' : Derives l ts e') : e = e' := by
  have hread := h.readFrom_append [] [] (.nil k) (.nil k)
  have hread' := h'.readFrom_append [] [] (.nil l) (.nil l)
  exact Option.some_inj.1 (hread.symm.trans hread')

end Expression

end BlockCompiler
