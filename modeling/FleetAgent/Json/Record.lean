/-
# Records in JSON

A record is an object with a member for each of its fields, or an array of exactly their values.
Its fields are read from a document without reading the rest: a member with another name is
skipped, and what it holds only has to be in its place.  A number that is skipped may be out of
range, a text that is skipped may have surrogates on their own and bytes that are not UTF-8, and
containers that are skipped may be nested to any depth.

A document is cut into pieces (`Piece.ofBytes?`).  Their order is checked by a machine that
remembers which containers are open (`Outline.step?`), and the pieces between the outermost
brackets are taken apart at their commas (`contents`).
-/
import FleetAgent.Json.Token
import FleetAgent.Text.Utf8

namespace FleetAgent.Json

/-! ## Pieces -/

/-- A piece of a document.  A character is `none` where the bytes are not UTF-8. -/
inductive Piece where
  /-- A bracket, a comma or a colon. -/
  | mark (c : Char)
  /-- What is written between two quotes. -/
  | text (written : List (Option Char))
  /-- A number or a word. -/
  | plain (written : List Char)
deriving DecidableEq, Repr, Inhabited

namespace Skimmer

/-- Where the machine stands between two characters.  What is in progress is held in reverse. -/
inductive Mode where
  /-- Between pieces. -/
  | between
  /-- In a number or a word. -/
  | plain (acc : List Char)
  /-- In a text. -/
  | text (acc : List (Option Char))
  /-- Behind a backslash in a text. -/
  | escape (acc : List (Option Char))
  /-- In a `\u` escape of which `left` digits are still to come. -/
  | unicode (acc : List (Option Char)) (left : Nat)
deriving DecidableEq, Repr, Inhabited

/-- The machine: its mode and the pieces found so far, the latest first. -/
structure State where
  mode : Mode
  found : List Piece
deriving DecidableEq, Repr, Inhabited

/-- Whether a number or a word may go on with a character. -/
def isPlainChar (c : Char) : Bool :=
  Lexer.isNumeric c || Lexer.isLetter c

/-- The piece of a number or a word, which may be out of range. -/
def plain? (s : List Char) : Option Piece :=
  if (Lexer.wordToken? s).isSome || (Number.ofChars? s).isSome then some (.plain s) else none

/-- Reads a character between pieces. -/
def start? (found : List Piece) (c : Char) : Option State :=
  if Lexer.isSpace c then some ⟨.between, found⟩
  else if c = '"' then some ⟨.text [], found⟩
  else if isPlainChar c then some ⟨.plain [c], found⟩
  else (Lexer.punctuation? c).map fun _ => ⟨.between, .mark c :: found⟩

/-- Reads one character; an error gives nothing.  Outside of texts a document is UTF-8. -/
def step? (s : State) : Option Char → Option State
  | none =>
    match s.mode with
    | .text acc => some ⟨.text (none :: acc), s.found⟩
    | _ => none
  | some c =>
    match s.mode with
    | .between => start? s.found c
    | .plain acc =>
      if isPlainChar c then some ⟨.plain (c :: acc), s.found⟩
      else (plain? acc.reverse).bind fun p => start? (p :: s.found) c
    | .text acc =>
      if c = '\\' then some ⟨.escape (some c :: acc), s.found⟩
      else if c = '"' then some ⟨.between, .text acc.reverse :: s.found⟩
      else if c.toNat < 0x20 then none
      else some ⟨.text (some c :: acc), s.found⟩
    | .escape acc =>
      if c = 'u' then some ⟨.unicode (some c :: acc) 4, s.found⟩
      else (Lexer.escaped? c).map fun _ => ⟨.text (some c :: acc), s.found⟩
    | .unicode acc left =>
      if !Text.Hex.isDigit c then none
      else if left ≤ 1 then some ⟨.text (some c :: acc), s.found⟩
      else some ⟨.unicode (some c :: acc) (left - 1), s.found⟩

/-- The pieces at the end of the document. -/
def finish? (s : State) : Option (List Piece) :=
  match s.mode with
  | .between => some s.found.reverse
  | .plain acc => (plain? acc.reverse).map fun p => (p :: s.found).reverse
  | _ => none

end Skimmer

/-- The pieces of a document. -/
def Piece.ofBytes? (document : List UInt8) : Option (List Piece) :=
  match (Text.Utf8.pieces document).foldlM Skimmer.step? ⟨.between, []⟩ with
  | some state => Skimmer.finish? state
  | none => none

/-! ## Containers -/

namespace Outline

/-- The kinds of containers. -/
inductive Container where
  | array
  | object
deriving DecidableEq, Repr, Inhabited

/-- What the next piece may be. -/
inductive Expect where
  /-- A value. -/
  | value
  /-- The first item of an array, or its end. -/
  | itemOrEnd
  /-- The name of a member. -/
  | name
  /-- The name of the first member of an object, or its end. -/
  | nameOrEnd
  /-- The colon behind a name. -/
  | colon
  /-- What follows a value. -/
  | after
deriving DecidableEq, Repr, Inhabited

/-- The machine: the open containers, the innermost first, and what may come next. -/
structure State where
  stack : List Container
  expect : Expect
deriving DecidableEq, Repr, Inhabited

/-- Closes the innermost container. -/
def close? (kind : Container) : List Container → Option State
  | [] => none
  | innermost :: stack => if innermost = kind then some ⟨stack, .after⟩ else none

/-- Reads a piece where a value may begin. -/
def value? (stack : List Container) : Piece → Option State
  | .text _ | .plain _ => some ⟨stack, .after⟩
  | .mark c =>
    if c = '[' then some ⟨.array :: stack, .itemOrEnd⟩
    else if c = '\x7b' then some ⟨.object :: stack, .nameOrEnd⟩
    else none

/-- Reads a piece where a name may begin. -/
def name? (stack : List Container) : Piece → Option State
  | .text _ => some ⟨stack, .colon⟩
  | _ => none

/-- Reads a piece behind a value. -/
def after? (stack : List Container) (p : Piece) : Option State :=
  if p = .mark ']' then close? .array stack
  else if p = .mark '\x7d' then close? .object stack
  else if p = .mark ',' then
    match stack with
    | .array :: _ => some ⟨stack, .value⟩
    | .object :: _ => some ⟨stack, .name⟩
    | [] => none
  else none

/-- Reads one piece; an error gives nothing. -/
def step? (s : State) (p : Piece) : Option State :=
  match s.expect with
  | .value => value? s.stack p
  | .itemOrEnd => if p = .mark ']' then close? .array s.stack else value? s.stack p
  | .name => name? s.stack p
  | .nameOrEnd => if p = .mark '\x7d' then close? .object s.stack else name? s.stack p
  | .colon => if p = .mark ':' then some ⟨s.stack, .value⟩ else none
  | .after => after? s.stack p

end Outline

/-- Whether pieces make up a value. -/
def isValue (ps : List Piece) : Bool :=
  ps.foldlM Outline.step? ⟨[], .value⟩ == some ⟨[], .after⟩

/-- The number of open containers behind a piece. -/
def Piece.depth (depth : Nat) (p : Piece) : Nat :=
  if p = .mark '[' ∨ p = .mark '\x7b' then depth + 1
  else if p = .mark ']' ∨ p = .mark '\x7d' then depth - 1
  else depth

/-- The parts between the commas that stand in no container; `acc` holds the current part in
reverse. -/
def parts : Nat → List Piece → List Piece → List (List Piece)
  | _, acc, [] => [acc.reverse]
  | depth, acc, p :: ps =>
    if depth = 0 ∧ p = .mark ',' then acc.reverse :: parts depth [] ps
    else parts (p.depth depth) (p :: acc) ps

/-- The items or the members of a container, given the pieces behind its first bracket. -/
def contents (ps : List Piece) : List (List Piece) :=
  match ps.dropLast with
  | [] => []
  | inside => parts 0 [] inside

/-! ## Fields -/

/-- The text that is written between two quotes. -/
def writtenText? (written : List (Option Char)) : Option String :=
  match (written.mapM id).bind fun s => Token.ofChars? ('"' :: s ++ ['"']) with
  | some [.string s] => some s
  | _ => none

/-- The text that a value is. -/
def text? : List Piece → Option String
  | [.text written] => writtenText? written
  | _ => none

/-- The number of 64 bits that a value is. -/
def unsigned64? : List Piece → Option Nat
  | [.plain written] =>
    ((Number.ofChars? written).bind Number.natural?).filter (· < Numeral.unsigned64End)
  | _ => none

/-- The name of a member and the pieces of its value. -/
def member? : List Piece → Option (String × List Piece)
  | .text written :: .mark ':' :: value => (writtenText? written).map fun name => (name, value)
  | _ => none

/-- The values of fields in members, whose names all have to be texts; a field may not be
repeated. -/
def fieldsIn? (names : List String) (members : List (List Piece)) : Option (List (List Piece)) := do
  let members ← members.mapM member?
  if names.all fun name => members.countP (·.1 == name) ≤ 1 then
    names.mapM fun name => members.lookup name
  else none

/-- The values of the fields of a record in a document, in the order of their names. -/
def fields? (names : List String) (document : List UInt8) : Option (List (List Piece)) := do
  let ps ← Piece.ofBytes? document
  if isValue ps then
    match ps with
    | .mark '[' :: rest => if (contents rest).length = names.length then contents rest else none
    | .mark '\x7b' :: rest => fieldsIn? names (contents rest)
    | _ => none
  else none

end FleetAgent.Json
