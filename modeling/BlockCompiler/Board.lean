import BlockCompiler.Text.Blank
import BlockCompiler.Text.Case

set_option autoImplicit false

/-! # Boards

The boards that a program can be built for. The board decides which pins the menus offer and which
peripherals are built in. -/

namespace BlockCompiler

/-- A target board. -/
inductive Board where
  | activityBoard
  | flip
  | hebBadge
  | hebBadgeWireless
  | scribbler3
  | other
  deriving Repr, DecidableEq

namespace Board

/-- The board that is meant when none is named. -/
def standard : Board := .activityBoard

/-- The name by which documents and the command line know the board. -/
def name : Board → String
  | .activityBoard => "activity-board"
  | .flip => "flip"
  | .hebBadge => "heb"
  | .hebBadgeWireless => "heb-wx"
  | .scribbler3 => "s3"
  | .other => "other"

/-- The general purpose pins that the menus offer. -/
def digitalPins : Board → List Nat
  | .activityBoard => List.range 18 ++ [26, 27]
  | .flip => List.range 28
  | .hebBadge => List.range 12
  | .hebBadgeWireless => List.range 16
  | .scribbler3 => List.range 6
  | .other => List.range 32

/-- Whether the board has a micro-SD socket wired to fixed pins. -/
def hasCardSocket (b : Board) : Bool := b == .activityBoard

/-- A text that names no board, as it was compared. -/
structure Unknown where
  text : String
  deriving Repr, DecidableEq

/-- What is said of a text that names no board. -/
def Unknown.message (u : Unknown) : String :=
  "Unknown board '" ++ u.text ++
    "'. Expected one of: activity-board, flip, heb, heb-wx, s3, other."

/-- The names and short names that texts are compared with. -/
def names : List (String × Board) :=
  [("activity-board", .activityBoard), ("activity", .activityBoard), ("ab", .activityBoard),
    ("flip", .flip), ("heb", .hebBadge), ("heb-wx", .hebBadgeWireless), ("s3", .scribbler3),
    ("scribbler", .scribbler3), ("other", .other)]

/-- The board that a text names, whatever its case and the blanks around it. -/
def ofText (text : String) : Except Unknown Board :=
  let plain := Text.lower (Text.trimmed text)
  match names.lookup plain with
  | some board => .ok board
  | none => .error ⟨plain⟩

end Board

end BlockCompiler
