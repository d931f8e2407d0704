/-
# Punycode

A label of a host name that is not ASCII is sent in an ASCII form: behind `xn--` come its
ASCII characters, a hyphen, and the other characters as a row of deltas.  A delta is a number
in base 36 whose digits end by themselves, because each place has a threshold below which a
digit is the last one; it counts how many places and code points lie between one inserted
character and the next.
-/
import FleetAgent.Numeral.Integer
import FleetAgent.Text.Pieces

namespace FleetAgent.Url.Punycode

/-- The value of a digit: letters come before decimal digits. -/
def digit? (c : Char) : Option Nat :=
  if c.isLower then some (c.toNat - 'a'.toNat)
  else if c.isUpper then some (c.toNat - 'A'.toNat)
  else if c.isDigit then some (c.toNat - '0'.toNat + 26)
  else none

/-- The threshold of the place `k`, which is a multiple of 36. -/
def threshold (bias k : Nat) : Nat :=
  min (max (k - bias) 1) 26

/-- Reads a delta from the place `k` on, whose digits weigh `weight`. -/
def delta? (bias : Nat) : Nat → Nat → Nat → List Char → Option (Nat × List Char)
  | _, _, _, [] => none
  | k, weight, sum, c :: s => do
    let d ← digit? c
    let t := threshold bias k
    if d < t then some (sum + d * weight, s)
    else delta? bias (k + 36) (weight * (36 - t)) (sum + d * weight) s

/-- How often a delta can be divided until it is small, times 36, with what is left of it. -/
def shrink (delta : Nat) : Nat × Nat :=
  if delta ≤ 455 then (0, delta)
  else
    let (k, rest) := shrink (delta / 35)
    (k + 36, rest)
termination_by delta
decreasing_by omega

/-- The bias after a delta that has led to `points` characters. -/
def adapt (delta points : Nat) (first : Bool) : Nat :=
  let delta := if first then delta / 700 else delta / 2
  let (k, delta) := shrink (delta + delta / points)
  k + 36 * delta / (delta + 38)

/-- Inserts the characters that deltas give: `n` is the code point and `i` the place that
have been reached.  `fuel` bounds the number of deltas. -/
def insertAll : Nat → Nat → Nat → Nat → Bool → List Char → List Char → Option (List Char)
  | _, _, _, _, _, done, [] => some done
  | 0, _, _, _, _, _, _ => none
  | fuel + 1, n, i, bias, first, done, s => do
    let (delta, s) ← delta? bias 36 1 0 s
    let points := done.length + 1
    let n := n + (i + delta) / points
    let i := (i + delta) % points
    if h : n.isValidChar then
      insertAll fuel n (i + 1) (adapt delta points first) false
        (done.take i ++ Char.ofNatAux n h :: done.drop i) s
    else none

/-- The characters that a label stands for, behind its `xn--`. -/
def decode? (s : List Char) : Option (List Char) :=
  let (deltas, basic) := (s.reverse.takeWhile (· != '-'), s.reverse.dropWhile (· != '-'))
  insertAll s.length 128 0 72 true (basic.drop 1).reverse deltas.reverse

end FleetAgent.Url.Punycode
