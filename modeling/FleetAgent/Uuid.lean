/-
# Universally unique identifiers

An identifier is sixteen bytes.  Four spellings are read: thirty-two hexadecimal digits, the
digits in groups of 8, 4, 4, 4 and 12 with hyphens between them, the latter in braces, and
the latter behind `urn:uuid:`.  The case of the digits is free, that of `urn:uuid:` is not.
-/
import FleetAgent.Text.Hex
import FleetAgent.Text.Pieces

namespace FleetAgent

/-- A universally unique identifier. -/
structure Uuid where
  bytes : List UInt8
  size_eq : bytes.length = 16
deriving DecidableEq, Repr

namespace Uuid

/-- The identifier of exactly thirty-two digits. -/
def ofDigits? (s : List Char) : Option Uuid :=
  match Text.Hex.decodeAux s [] with
  | some bytes => if h : bytes.length = 16 then some ⟨bytes, h⟩ else none
  | none => none

/-- The identifier of digits in hyphenated groups. -/
def ofHyphenated? (s : List Char) : Option Uuid :=
  let groups := Text.splitAt (· == '-') s
  if groups.map List.length = [8, 4, 4, 4, 12] then ofDigits? groups.flatten else none

/-- The word in front of a hyphenated identifier in a resource name. -/
def urn : List Char := "urn:uuid:".toList

/-- Reads an identifier in any of its spellings. -/
def ofChars? (s : List Char) : Option Uuid :=
  if s.length = 32 then ofDigits? s
  else if s.length = 36 then ofHyphenated? s
  else if s.length = 38 ∧ s.head? = some '\x7b' ∧ s.getLast? = some '\x7d' then
    ofHyphenated? ((s.drop 1).take 36)
  else if s.length = 45 ∧ urn.isPrefixOf s then ofHyphenated? (s.drop 9)
  else none

/-- Reads an identifier in any of its spellings. -/
def ofString? (s : String) : Option Uuid :=
  ofChars? s.toList

end Uuid

end FleetAgent
