/-
# Bits of a deflated stream

A deflated stream is a row of bits that fills its bytes from the lowest bit up.  Numbers in
it stand with their lowest bit first.
-/
namespace FleetAgent.Deflate

/-- Why decoding stops. -/
inductive Stop where
  /-- The last block is complete. -/
  | finished
  /-- The stream ends too early. -/
  | truncated
  /-- The stream breaks a rule of the format. -/
  | invalid
  /-- As much output as was asked for is there. -/
  | full
deriving DecidableEq, Repr, Inhabited

/-- The bits that are still to be read: those of a byte in progress, and whole bytes. -/
structure Bits where
  pending : List Bool
  rest : List UInt8
deriving DecidableEq, Repr, Inhabited

namespace Bits

/-- The bits of a byte, the lowest first. -/
def ofByte (b : UInt8) : List Bool :=
  (List.range 8).map fun i => b.toNat.testBit i

/-- The bits of a byte string. -/
def ofBytes (bs : List UInt8) : Bits := ⟨[], bs⟩

/-- The next bit. -/
def next (s : Bits) : Except Stop (Bool × Bits) :=
  match s.pending, s.rest with
  | b :: pending, rest => .ok (b, ⟨pending, rest⟩)
  | [], byte :: rest =>
    match ofByte byte with
    | b :: pending => .ok (b, ⟨pending, rest⟩)
    | [] => .error .truncated
  | [], [] => .error .truncated

/-- The number in the next `n` bits. -/
def number : Nat → Bits → Except Stop (Nat × Bits)
  | 0, s => .ok (0, s)
  | n + 1, s => do
    let (b, s) ← s.next
    let (m, s) ← number n s
    return (b.toNat + 2 * m, s)

/-- The next `n` whole bytes, behind the byte in progress. -/
def bytes (n : Nat) (s : Bits) : Except Stop (List UInt8 × Bits) :=
  if s.rest.length < n then .error .truncated
  else .ok (s.rest.take n, ⟨[], s.rest.drop n⟩)

/-- An upper bound for the number of bits. -/
def size (s : Bits) : Nat :=
  s.pending.length + 8 * s.rest.length

end Bits

end FleetAgent.Deflate
