/-
# Integers in decimal notation

Two notations are read: digits alone (`natural?`), and digits after an optional sign
(`integer?`).  Both take ASCII digits only and need at least one; leading zeros are allowed.
The bounded readers give nothing when the value does not fit the width.
-/
import FleetAgent.Numeral.Width

namespace FleetAgent.Numeral

/-- The value of an ASCII digit. -/
def digit? (c : Char) : Option Nat :=
  if '0' ≤ c ∧ c ≤ '9' then some (c.toNat - '0'.toNat) else none

/-- Whether a character is an ASCII digit. -/
def isDigit (c : Char) : Bool :=
  (digit? c).isSome

/-- Reads digits after those that gave `n`. -/
def naturalAux : List Char → Nat → Option Nat
  | [], n => some n
  | c :: cs, n =>
    match digit? c with
    | some d => naturalAux cs (10 * n + d)
    | none => none

/-- The number that a nonempty row of digits denotes. -/
def natural? (s : List Char) : Option Nat :=
  if s.isEmpty then none else naturalAux s 0

/-- The number that digits after an optional sign denote. -/
def integer? : List Char → Option Int
  | '+' :: s => (natural? s).map Int.ofNat
  | '-' :: s => (natural? s).map fun n => -Int.ofNat n
  | s => (natural? s).map Int.ofNat

/-- A signed number of 32 bits. -/
def int32? (s : List Char) : Option Int :=
  match integer? s with
  | some n => if -(signed32End : Int) ≤ n ∧ n < signed32End then some n else none
  | none => none

/-- An unsigned number of 64 bits; a plus sign may precede it, a minus sign may not. -/
def unsigned64? (s : List Char) : Option Nat :=
  let digits := match s with
    | '+' :: rest => rest
    | _ => s
  match natural? digits with
  | some n => if n < unsigned64End then some n else none
  | none => none

end FleetAgent.Numeral
