import BlockCompiler.Markup.Name
import BlockCompiler.Text.Integer

set_option autoImplicit false

/-! # Markup tokens

Cutting a document into tags, runs of text, and what is skipped. Each scanner takes the characters
behind the mark that calls for it and gives back what follows the token. -/

namespace BlockCompiler.Markup

/-- A tag, a run of text, or something that readers skip. -/
inductive Token where
  /-- Opens an element; an empty one is closed at once. -/
  | startTag (name : Name) (attributes : List (Name × String)) (empty : Bool)
  | endTag (name : Name)
  /-- Characters up to the next mark, with their references as they are written. -/
  | text (raw : List Char)
  /-- Characters that are taken as they are. -/
  | verbatim (content : List Char)
  /-- A comment or a processing instruction. -/
  | skipped
  | doctype
  deriving Repr, DecidableEq

namespace Token

/-! ## References -/

/-- The character of a code point that a document may hold. -/
def charOf? (n : Nat) : Option Char :=
  if n.isValidChar && isAllowed (Char.ofNat n) then some (Char.ofNat n) else none

/-- The character that a reference stands for: one of five names, or a code point. -/
def reference? (name : List Char) : Option Char :=
  match String.ofList name with
  | "lt" => some '<'
  | "gt" => some '>'
  | "amp" => some '&'
  | "quot" => some '"'
  | "apos" => some '\''
  | _ =>
    match name with
    | '#' :: 'x' :: digits => (Text.digits? 16 digits).bind charOf?
    | '#' :: digits => (Text.digits? 10 digits).bind charOf?
    | _ => none

/-- Replaces references; while one is read, `pending?` holds its characters, last one first. -/
def decode? : Option (List Char) → List Char → Option (List Char)
  | none, [] => some []
  | some _, [] => none
  | none, c :: cs =>
    if c = '&' then decode? (some []) cs
    else if isAllowed c then (decode? none cs).map (c :: ·)
    else none
  | some pending, c :: cs =>
    if c = ';' then do
      let referred ← reference? pending.reverse
      (decode? none cs).map (referred :: ·)
    else
      decode? (some (c :: pending)) cs

/-! ## Skipping -/

/-- What follows white space. -/
def skipSpace (cs : List Char) : List Char := cs.dropWhile isSpace

/-- What follows a word. -/
def after? (word : String) (cs : List Char) : Option (List Char) :=
  if word.toList.isPrefixOf cs then some (cs.drop word.toList.length) else none

/-- What follows a comment; two hyphens may only stand at its end. -/
def afterComment? : List Char → Option (List Char)
  | '-' :: '-' :: '>' :: rest => some rest
  | '-' :: '-' :: _ => none
  | c :: rest => if isAllowed c then afterComment? rest else none
  | [] => none

/-- The characters up to the end of a verbatim section, and what follows it. -/
def verbatim? : List Char → Option (List Char × List Char)
  | ']' :: ']' :: '>' :: rest => some ([], rest)
  | c :: rest =>
    if isAllowed c then (verbatim? rest).map fun (content, rest) => (c :: content, rest) else none
  | [] => none

/-- What follows the end of a processing instruction. -/
def afterInstruction? : List Char → Option (List Char)
  | '?' :: '>' :: rest => some rest
  | c :: rest => if isAllowed c then afterInstruction? rest else none
  | [] => none

/-- What follows a processing instruction. Its target is not the word of the declaration. -/
def instruction? (cs : List Char) : Option (List Char) := do
  let (target, rest) ← Name.raw? cs
  if String.ofList (target.map Char.toLower) == "xml" then none
  else
    match rest with
    | '?' :: '>' :: rest => some rest
    | c :: rest => if isSpace c then afterInstruction? rest else none
    | [] => none

/-- What follows a document type, which ends where all its marks are closed. `quote?` is the quote
inside of which the text stands. -/
def afterDoctype? : Nat → Option Char → List Char → Option (List Char)
  | _, _, [] => none
  | depth, some quote, c :: rest =>
    afterDoctype? depth (if c = quote then none else some quote) rest
  | depth, none, c :: rest =>
    if c = '"' || c = '\'' then afterDoctype? depth (some c) rest
    else if c = '<' then afterDoctype? (depth + 1) none rest
    else if c = '>' then
      match depth with
      | 0 => some rest
      | depth + 1 => afterDoctype? depth none rest
    else if isAllowed c then afterDoctype? depth none rest
    else none

/-! ## Tags -/

/-- The characters in quotes at the start of the text, and what follows them. -/
def quoted? : List Char → Option (List Char × List Char)
  | [] => none
  | quote :: cs =>
    if quote = '"' || quote = '\'' then
      match cs.dropWhile (· != quote) with
      | [] => none
      | _ :: rest => some (cs.takeWhile (· != quote), rest)
    else
      none

/-- What follows an equals sign with white space around it. -/
def afterEquals? (cs : List Char) : Option (List Char) :=
  match skipSpace cs with
  | '=' :: rest => some (skipSpace rest)
  | _ => none

/-- An attribute and what follows it. Its value holds no opening mark. -/
def attribute? (cs : List Char) : Option ((Name × String) × List Char) := do
  let (name, rest) ← Name.scan? cs
  let rest ← afterEquals? rest
  let (raw, rest) ← quoted? rest
  if raw.contains '<' then none
  else
    let value ← decode? none raw
    return ((name, String.ofList value), rest)

/-- The attributes of a start tag up to its end, whether the tag closes its element, and what
follows the tag. Every attribute stands behind white space. -/
def attributes? : Nat → List Char → Option (List (Name × String) × Bool × List Char)
  | 0, _ => none
  | fuel + 1, cs =>
    match skipSpace cs with
    | '>' :: rest => some ([], false, rest)
    | '/' :: '>' :: rest => some ([], true, rest)
    | rest =>
      if rest.length == cs.length then none
      else do
        let (first, rest) ← attribute? rest
        let (others, empty, rest) ← attributes? fuel rest
        return (first :: others, empty, rest)

/-- A start tag behind its opening mark. -/
def startTag? (cs : List Char) : Option (Token × List Char) := do
  let (name, rest) ← Name.scan? cs
  let (attributes, empty, rest) ← attributes? (rest.length + 1) rest
  return (.startTag name attributes empty, rest)

/-- An end tag behind its opening mark. -/
def endTag? (cs : List Char) : Option (Token × List Char) := do
  let (name, rest) ← Name.scan? cs
  let rest ← after? ">" (skipSpace rest)
  return (.endTag name, rest)

/-- A token that is opened by a mark with an exclamation point. -/
def declared? (cs : List Char) : Option (Token × List Char) :=
  match after? "--" cs with
  | some rest => (afterComment? rest).map fun rest => (.skipped, rest)
  | none =>
    match after? "[CDATA[" cs with
    | some rest => (verbatim? rest).map fun (content, rest) => (.verbatim content, rest)
    | none => do
      let rest ← after? "DOCTYPE" cs
      let rest ← afterDoctype? 0 none rest
      return (.doctype, rest)

/-- The first token of a text that is not empty, and what follows it. -/
def scan? : List Char → Option (Token × List Char)
  | '<' :: '/' :: rest => endTag? rest
  | '<' :: '!' :: rest => declared? rest
  | '<' :: '?' :: rest => (instruction? rest).map fun rest => (.skipped, rest)
  | '<' :: rest => startTag? rest
  | cs => some (.text (cs.takeWhile (· != '<')), cs.dropWhile (· != '<'))

/-- The tokens of a text; every one takes at least one character. -/
def scanAll? : Nat → List Char → Option (List Token)
  | _, [] => some []
  | 0, _ => none
  | fuel + 1, cs => do
    let (token, rest) ← scan? cs
    let others ← scanAll? fuel rest
    return token :: others

/-! ## The declaration -/

/-- A part of the declaration: white space, the given word, an equals sign and a quoted value. -/
def declarationPart? (word : String) (cs : List Char) : Option (List Char × List Char) := do
  if (skipSpace cs).length == cs.length then none
  else
    let rest ← after? word (skipSpace cs)
    let rest ← afterEquals? rest
    quoted? rest

/-- What follows an optional part of the declaration whose value passes a test. -/
def optionalPart? (word : String) (test : String → Bool) (cs : List Char) : Option (List Char) :=
  match after? word (skipSpace cs) with
  | none => some cs
  | some _ => do
    let (value, rest) ← declarationPart? word cs
    if test (String.ofList value) then some rest else none

/-- What follows the declaration of a document, which can only stand at the very start: version,
then optionally encoding and whether the document stands alone. -/
def afterDeclaration? (cs : List Char) : Option (List Char) :=
  match after? "<?xml" cs with
  | none => some cs
  | some rest =>
    if rest.head?.any isNameChar then
      some cs
    else do
      let (version, rest) ← declarationPart? "version" rest
      if ["1.0", "1.1"].contains (String.ofList version) then
        let rest ← optionalPart? "encoding" (fun _ => true) rest
        let rest ← optionalPart? "standalone" (["yes", "no"].contains ·) rest
        after? "?>" (skipSpace rest)
      else
        none

/-- The tokens of a document. -/
def ofDocument? (cs : List Char) : Option (List Token) := do
  let rest ← afterDeclaration? cs
  scanAll? rest.length rest

end Token

end BlockCompiler.Markup
