/-
# Rounding to the nearest, ties to even

A quotient of natural numbers is rounded to the nearest natural number, and of two equally
near ones to the even one (`roundDiv`).  `roundBits p n` rounds a natural number to the
nearest one with at most `p` significant binary digits, which is how an integer is stored in
a binary floating-point format of precision `p`.
-/
import FleetAgent.Numeral.Width

namespace FleetAgent.Numeral

/-- The natural number nearest to `n / d`, the even one of two. -/
def roundDiv (n d : Nat) : Nat :=
  let q := n / d
  let r := n % d
  if d < 2 * r ∨ (2 * r = d ∧ q % 2 = 1) then q + 1 else q

/-- The number nearest to `n` that has at most `p` significant binary digits. -/
def roundBits (p n : Nat) : Nat :=
  if n < endOfBits p then n
  else
    let s := Nat.log2 n + 1 - p
    roundDiv n (endOfBits s) * endOfBits s

end FleetAgent.Numeral
