/-
# The range of double precision

A decimal number is stored in double precision as the nearest number of that format.  It
overflows when that would be infinity, which is the case from half a unit above the greatest
finite number on.
-/
import FleetAgent.Numeral.Integer

namespace FleetAgent.Numeral.Double

/-- The least number that rounds to infinity: half a unit above the greatest finite one. -/
def overflowBound : Nat := (endOfBits 54 - 1) * endOfBits 970

/-- Whether `m * 10 ^ e` overflows.  The bounds on the exponent only avoid large powers:
`10 ^ 310` is beyond the greatest number and `10 ^ 300` is not. -/
def overflows (m : Nat) (e : Int) : Bool :=
  let top := e + Int.ofNat (Nat.toDigits 10 m).length
  if m = 0 ∨ top < 300 then false
  else if 311 < top then true
  else if 0 ≤ e then overflowBound ≤ m * Nat.pow 10 e.toNat
  else overflowBound * Nat.pow 10 (-e).toNat ≤ m

end FleetAgent.Numeral.Double
