/-
# Numbers and ranges in byte strings

Archives store numbers with the least significant byte first.  `number` reads such a row of
bytes and `bytesOf` writes it.  Ranges are taken with their bounds checked: `field` inside a
buffer, `read` in the archive itself, where a range that ends too late means that the archive
is truncated.
-/
import FleetAgent.Archive.Failure
import FleetAgent.Numeral.Width

namespace FleetAgent.Archive

/-- The number that bytes denote, the least significant first. -/
def number : List UInt8 → Nat
  | [] => 0
  | b :: bs => b.toNat + 256 * number bs

/-- The lowest `width` bytes of a number, the least significant first. -/
def bytesOf : Nat → Nat → List UInt8
  | 0, _ => []
  | width + 1, n => UInt8.ofNat (n % 256) :: bytesOf width (n / 256)

/-- The `n` bytes from position `start` on. -/
def slice? (bs : List UInt8) (start n : Nat) : Option (List UInt8) :=
  let part := (bs.drop start).take n
  if part.length = n then some part else none

/-- The number of `width` bytes at position `start` of a buffer. -/
def field (bs : List UInt8) (start width : Nat) : Except Failure Nat :=
  match slice? bs start width with
  | some part => .ok (number part)
  | none => .error (.fault .outOfBounds)

/-- A sum of 64 bits. -/
def add (a b : Nat) : Except Failure Nat :=
  if a + b < Numeral.unsigned64End then .ok (a + b) else .error (.fault .overflow)

/-- Reads `n` bytes of an archive from position `start` on, into a buffer that may not be
longer than `limit`. -/
def read (archive : List UInt8) (start n limit : Nat) : Except Failure (List UInt8) :=
  if limit < n then .error (.fault .allocation)
  else if Numeral.signed64End ≤ start then .error .unseekable
  else match slice? archive start n with
    | some part => .ok part
    | none => .error (.corrupt .unexpectedEnd)

/-- Reads a number of 32 bits from an archive. -/
def read32 (archive : List UInt8) (start : Nat) : Except Failure Nat := do
  field (← read archive start 4 4) 0 4

/-- The numbers of 64 bits in a byte string; up to seven bytes at its end are left out. -/
def number64s : List UInt8 → List Nat
  | a :: b :: c :: d :: e :: f :: g :: h :: rest =>
    number [a, b, c, d, e, f, g, h] :: number64s rest
  | _ => []

/-- The value of a field of 32 bits that tells that the number stands elsewhere. -/
def saturated : Nat := 0xFFFFFFFF

end FleetAgent.Archive
