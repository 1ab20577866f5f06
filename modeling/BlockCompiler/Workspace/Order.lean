import BlockCompiler.Workspace

set_option autoImplicit false

/-! # Orders on a workspace

Three orders: the canvas order of stacks, the order in which a program reads its blocks, and the
members of one stack. Links may form cycles, so every walk remembers where it has been. -/

namespace BlockCompiler

/-! ## Sorting -/

/-- Puts an element in front of the first one that does not come before it. -/
def insertSorted {α : Type} (before : α → α → Bool) (a : α) : List α → List α
  | [] => [a]
  | b :: bs => if before b a then b :: insertSorted before a bs else a :: b :: bs

/-- Sorts a list; elements of which neither comes before the other keep their order. -/
def sortStable {α : Type} (before : α → α → Bool) : List α → List α
  | [] => []
  | a :: as => insertSorted before a (sortStable before as)

/-! ## Canvas order -/

/-- Top to bottom, then left to right, then by name. -/
def Block.comesBefore (a b : Block) : Bool :=
  a.y < b.y || (a.y == b.y && (a.x < b.x || (a.x == b.x && a.id < b.id)))

/-- Canvas order on numbers of blocks. -/
def Workspace.isAbove (w : Workspace) (a b : BlockId) : Bool :=
  match w.block? a, w.block? b with
  | some a, some b => a.comesBefore b
  | _, _ => false

/-- The heads of the stacks in canvas order. -/
def Workspace.topBlocks (w : Workspace) : List BlockId := sortStable w.isAbove w.top

/-! ## Sockets -/

/-- A socket's name cut into a stem and the number of its branch. -/
structure SocketKey where
  stem : String
  number : Nat
  deriving Repr, DecidableEq

/-- The digits that a name ends with are its number; a missing or too great one counts as zero. -/
def SocketKey.ofName (name : String) : SocketKey :=
  let reversed := name.toList.reverse
  let digits := (reversed.takeWhile Char.isDigit).reverse
  { stem := String.ofList (reversed.dropWhile Char.isDigit).reverse
    number := (Text.unsigned? Block.greatestCount digits).getD 0 }

/-- By stem, then by number, so that the second branch comes before the tenth. -/
def SocketKey.comesBefore (a b : SocketKey) : Bool :=
  a.stem < b.stem || (a.stem == b.stem && a.number < b.number)

/-- The blocks in a row of sockets, by socket. -/
def inSocketOrder (sockets : Ledger BlockId) : List BlockId :=
  (sortStable (fun a b => (SocketKey.ofName a.1).comesBefore (SocketKey.ofName b.1))
    sockets.entries).map Prod.snd

/-- All blocks that a block links to, in the order in which a program reads them. -/
def Block.links (b : Block) : List BlockId :=
  inSocketOrder b.values ++ inSocketOrder b.statements ++ b.next.toList

/-! ## Program order -/

/-- The links of a block; a number without a block has none. -/
def Workspace.links (w : Workspace) (id : BlockId) : List BlockId :=
  match w.block? id with
  | some b => b.links
  | none => []

/-- Visits the agenda depth first, `seen` holding the blocks visited so far, latest first. Every
step takes one number off the agenda. -/
def Workspace.visit (w : Workspace) : Nat → List BlockId → List BlockId → List BlockId
  | 0, _, seen => seen
  | _ + 1, [], seen => seen
  | fuel + 1, id :: agenda, seen =>
    if seen.contains id then w.visit fuel agenda seen
    else w.visit fuel (w.links id ++ agenda) (id :: seen)

/-- An upper bound on how often a number is put on the agenda: once a link and once a stack. -/
def Workspace.linkCount (w : Workspace) : Nat :=
  ((List.range w.size).flatMap w.links).length + w.top.length

/-- Every block that a stack reaches, in the order in which a program reads them: stacks in canvas
order, and in a stack each block before what its sockets hold and that before the next block. -/
def Workspace.programOrder (w : Workspace) : List BlockId :=
  (w.visit w.linkCount w.topBlocks []).reverse

/-- The enabled blocks of a type that a stack reaches, in program order. -/
def Workspace.ofTypeInProgramOrder (w : Workspace) (type : String) : List BlockId :=
  w.programOrder.filter fun id => w.isEnabled id (·.type == type)

/-! ## Stacks -/

/-- The members of a stack, and the member at which it runs into itself, if it does. -/
structure Chain where
  members : List BlockId
  repeated : Option BlockId
  deriving Repr, DecidableEq

/-- Follows the `next` links from a block; `seen` holds the members found so far. -/
def Workspace.follow (w : Workspace) : Nat → List BlockId → Option BlockId → Chain
  | _, _, none => ⟨[], none⟩
  | 0, _, some id => ⟨[], some id⟩
  | fuel + 1, seen, some id =>
    if seen.contains id then
      ⟨[], some id⟩
    else
      match w.block? id with
      | none => ⟨[], none⟩
      | some b =>
        let rest := w.follow fuel (id :: seen) b.next
        { rest with members := id :: rest.members }

/-- The stack that a block heads. -/
def Workspace.chainFrom (w : Workspace) (head : BlockId) : Chain :=
  w.follow w.size [] (some head)

end BlockCompiler
