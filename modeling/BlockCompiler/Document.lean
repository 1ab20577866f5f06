import BlockCompiler.Document.Outline
import BlockCompiler.Program
import BlockCompiler.Variant.PinGroup

set_option autoImplicit false

/-! # Documents

A document is a workspace as it is stored, with the board that it was made for. Blocks are numbered
in the order in which the document opens them. How markup is parsed is left to who loads a
document. -/

namespace BlockCompiler

/-- A workspace read from a text, and the board that the text names. -/
structure Document where
  workspace : Workspace
  board? : Option Board
  deriving DecidableEq

namespace Outline

/-- The block that an outline describes; without a name it is called by its type and number. -/
def Head.block (head : Head) (number : BlockId) : Block :=
  { id := head.id?.getD (head.type ++ "#" ++ toString number)
    type := head.type
    disabled := head.disabled
    x := head.x
    y := head.y }

/-- Hangs a block on another. -/
def Link.connect (link : Link) (w : Workspace) (parent child : BlockId) : Workspace :=
  match link with
  | .value socket => w.connectValue parent socket child
  | .statement socket => w.connectStatement parent socket child
  | .next => w.connectNext parent child

/-- Brings a finished block that writes a run of pins into the form that its fields describe. -/
def settle (w : Workspace) (id : BlockId) : Workspace :=
  match w.block? id with
  | some b =>
    if b.type == Kind.setPins.name then w.exchange id ((PinGroup.ofBlock b).reshape b) else w
  | none => w

/-- Writes attributes into a block's mutation. -/
def mutate (attributes : Ledger String) (b : Block) : Block :=
  { b with mutation := attributes.entries.foldl (fun m (key, text) => m.put key text) b.mutation }

/-- Puts the content of block number `id` into the workspace. -/
def Content.place : Content → BlockId → Workspace → Workspace
  | .done, _, w => w
  | .mutation attributes rest, id, w => rest.place id (w.modify id (mutate attributes))
  | .field name text declares rest, id, w =>
    let w := if declares then w.declare text else w
    rest.place id (w.modify id fun b => { b with fields := b.fields.put name text })
  | .link how head inner rest, id, w =>
    let child := w.nextId
    let w := settle (inner.place child (w.add (head.block child))) child
    rest.place id (how.connect w id child)

/-- Puts what stands at the top of a document into the workspace. -/
def Item.place (w : Workspace) : Item → Workspace
  | .declarations names => names.foldl Workspace.declare w
  | .stack head content =>
    let id := w.nextId
    settle (content.place id (w.addTop (head.block id))) id

end Outline

namespace Document

/-- The board that the root names, if it names one. -/
def rootBoard? (root : Markup.Element) : Except LoadError (Option Board) :=
  match root.attributes.get? "board" with
  | none => .ok none
  | some text =>
    match Board.ofText text with
    | .ok board => .ok (some board)
    | .error unknown => .error (.unknownBoard unknown)

/-- Reads a document from its root element. -/
def ofRoot (root : Markup.Element) : Except LoadError Document := do
  if root.name != "xml" then
    throw (.wrongRoot root.name)
  let board? ← rootBoard? root
  let items ← Outline.items? root.children
  return { workspace := items.foldl Outline.Item.place .empty, board? }

/-- The byte order mark. -/
def byteOrderMark : Char := Char.ofNat 0xFEFF

/-- Loads a document with a parser; byte order marks in front of the text do not count. -/
def load (parse : Markup.Parser) (source : String) : Except LoadError Document :=
  match parse (String.ofList (source.toList.dropWhile (· == byteOrderMark))) with
  | some root => ofRoot root
  | none => .error .malformed

/-- The project of a document: the board asked for, or else the document's, or else the standard
one. -/
def project (d : Document) (board? : Option Board) : Project :=
  { workspace := d.workspace, board := (board?.or d.board?).getD .standard }

end Document

/-- Compiles the text of a document. -/
def compileSource (parse : Markup.Parser) (source : String) (board? : Option Board) :
    Except LoadError Program := do
  let document ← Document.load parse source
  return (document.project board?).compile

end BlockCompiler
