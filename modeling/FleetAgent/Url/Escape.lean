/-
# Percent escapes

A byte is escaped as a percent sign and two uppercase digits.  In a path control characters,
some punctuation and everything outside ASCII are escaped; an escape that is already there is
left as it is.  Reading replaces every well-formed escape by its byte.
-/
import FleetAgent.Text.Hex
import FleetAgent.Text.Utf8

namespace FleetAgent.Url

/-- The escape of a byte. -/
def escapeByte (b : UInt8) : List Char :=
  '%' :: (Text.Hex.ofByte b).map Char.toUpper

/-- A character, escaped if it satisfies `p`. -/
def escapeChar (p : Char → Bool) (c : Char) : List Char :=
  if p c then (String.utf8EncodeChar c).flatMap escapeByte else [c]

/-- Whether a character is a control character or not ASCII. -/
def isOutsidePrintable (c : Char) : Bool :=
  c.toNat < 0x20 || 0x7E < c.toNat

/-- Whether a character is escaped in a path. -/
def escapedInPath (c : Char) : Bool :=
  isOutsidePrintable c || c == ' ' || c == '"' || c == '<' || c == '>' || c == '\x60'
    || c == '#' || c == '?' || c == '\x7b' || c == '\x7d'

/-- The text with every character that satisfies `p` escaped. -/
def escape (p : Char → Bool) (s : List Char) : List Char :=
  s.flatMap (escapeChar p)

/-- Replaces escapes by their bytes; `acc` holds the bytes so far in reverse. -/
def unescapeFrom : List UInt8 → List UInt8 → List UInt8
  | acc, 0x25 :: a :: b :: rest =>
    match Text.Hex.value? (Char.ofNat a.toNat), Text.Hex.value? (Char.ofNat b.toNat) with
    | some x, some y => unescapeFrom (UInt8.ofNat (16 * x + y) :: acc) rest
    | _, _ => unescapeFrom (0x25 :: acc) (a :: b :: rest)
  | acc, b :: rest => unescapeFrom (b :: acc) rest
  | acc, [] => acc.reverse
termination_by _ s => s.length

/-- The bytes of a text, with escapes replaced by the bytes they stand for. -/
def unescape (s : List Char) : List UInt8 :=
  unescapeFrom [] (Text.Utf8.encode (String.ofList s))

end FleetAgent.Url
