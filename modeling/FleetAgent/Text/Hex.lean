/-
# Hexadecimal digits

Bytes are written as two lowercase digits each; digits are read in either case.
-/
namespace FleetAgent.Text.Hex

/-- The lowercase digit of a value below sixteen. -/
def digit (n : Nat) : Char :=
  if n < 10 then Char.ofNat (0x30 + n) else Char.ofNat (0x57 + n)

/-- The value of a digit in either case. -/
def value? (c : Char) : Option Nat :=
  let n := c.toNat
  if 0x30 ≤ n ∧ n ≤ 0x39 then some (n - 0x30)
  else if 0x41 ≤ n ∧ n ≤ 0x46 then some (n - 0x37)
  else if 0x61 ≤ n ∧ n ≤ 0x66 then some (n - 0x57)
  else none

/-- Whether a character is a digit in either case. -/
def isDigit (c : Char) : Bool :=
  (value? c).isSome

/-- The two digits of a byte. -/
def ofByte (b : UInt8) : List Char :=
  [digit (b.toNat / 16), digit (b.toNat % 16)]

/-- The digits of a byte string. -/
def encode (bs : List UInt8) : String :=
  String.ofList (bs.flatMap ofByte)

/-- Reads pairs of digits; `acc` holds the bytes read, in reverse. -/
def decodeAux : List Char → List UInt8 → Option (List UInt8)
  | [], acc => some acc.reverse
  | a :: b :: cs, acc =>
    match value? a, value? b with
    | some x, some y => decodeAux cs (UInt8.ofNat (16 * x + y) :: acc)
    | _, _ => none
  | [_], _ => none

/-- The bytes that a string of digit pairs denotes. -/
def decode? (s : String) : Option (List UInt8) :=
  decodeAux s.toList []

end FleetAgent.Text.Hex
