/-
# Armoured documents

A byte string is kept in a text file in base 64, in lines of 64 letters between a line that
begins and a line that ends the document, both of which name its kind.  Lines end with a line
feed, a carriage return or both.  Lines in front of the document are skipped, but nothing may
follow it.
-/
import FleetAgent.Text.Base64

namespace FleetAgent.Crypto.Pem

/-- The start of the first line. -/
def beginMark : List Char := "-----BEGIN ".toList

/-- The start of the last line. -/
def endMark : List Char := "-----END ".toList

/-- The end of both lines. -/
def dashes : List Char := "-----".toList

/-- The number of letters in a line. -/
def lineWidth : Nat := 64

/-! ## Writing -/

/-- Letters in lines. -/
def wrap : Nat → List Char → List Char
  | 0, _ => []
  | fuel + 1, s =>
    if s.isEmpty then [] else s.take lineWidth ++ '\n' :: wrap fuel (s.drop lineWidth)

/-- The text of a document. -/
def encode (label : String) (bytes : List UInt8) : String :=
  let body := Text.Base64.letters bytes
  String.ofList (beginMark ++ label.toList ++ dashes ++ '\n' :: wrap (body.length + 1) body
    ++ endMark ++ label.toList ++ dashes ++ ['\n'])

/-! ## Reading -/

/-- What follows a line end. -/
def newline? : List Char → Option (List Char)
  | '\r' :: '\n' :: s => some s
  | '\n' :: s => some s
  | '\r' :: s => some s
  | _ => none

/-- What precedes a line end at the end of a text, which is held in reverse. -/
def reversedNewline? : List Char → Option (List Char)
  | '\n' :: '\r' :: s => some s
  | '\n' :: s => some s
  | '\r' :: s => some s
  | _ => none

/-- What follows the start of the first line, behind lines without null characters. -/
def skipPreamble : List Char → Option (List Char)
  | [] => none
  | c :: s =>
    if c = '\x00' then none
    else if c = '\n' ∧ beginMark.isPrefixOf s then some (s.drop beginMark.length)
    else skipPreamble s

/-- What follows the start of the first line. -/
def document? (s : List Char) : Option (List Char) :=
  if beginMark.isPrefixOf s then some (s.drop beginMark.length) else skipPreamble s

/-- Drops a text from the end of another; both are held in reverse. -/
def dropEnd? (ending s : List Char) : Option (List Char) :=
  if ending.isPrefixOf s then some (s.drop ending.length) else none

/-- The letters of lines that are all full, except the last one; `fuel` bounds their
number. -/
def unwrap : Nat → List Char → Option (List Char)
  | 0, _ => none
  | fuel + 1, s =>
    if s.length ≤ lineWidth then some s
    else do
      let rest ← newline? (s.drop lineWidth)
      return s.take lineWidth ++ (← unwrap fuel rest)

/-- The bytes of the document of a given kind that a text consists of. -/
def decode? (label : String) (text : String) : Option (List UInt8) := do
  let s ← document? text.toList
  let head := label.toList ++ dashes
  if head.isPrefixOf s then
    let s ← newline? (s.drop head.length)
    let back := (reversedNewline? s.reverse).getD s.reverse
    let back ← dropEnd? (endMark ++ label.toList ++ dashes).reverse back
    let body := ((reversedNewline? back).getD back).reverse
    Text.Base64.decode? (String.ofList (← unwrap (body.length + 1) body))
  else none

end FleetAgent.Crypto.Pem
