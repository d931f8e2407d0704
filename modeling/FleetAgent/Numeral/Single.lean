/-
# Single-precision numbers in decimal notation

A progress value is written as a decimal with an optional sign, fraction and exponent, or as
`inf`, `infinity` or `nan` in any case.  `Single.ofChars?` reads it to the nearest
single-precision number.  The arithmetic is exact: the decimal is a quotient of natural
numbers, scaled by a power of two to 24 significant digits and rounded once, ties to even.
Decimals that are too large become infinite and ones that are too small become zero.
-/
import FleetAgent.Numeral.Integer
import FleetAgent.Numeral.Rounding

namespace FleetAgent.Numeral

/-- A single-precision number given by its 32 bits, or not a number. -/
inductive Single where
  | bits (b : UInt32)
  | notANumber
deriving DecidableEq, Repr, Inhabited

/-- A decimal number `mantissa * 10 ^ exponent` with a sign. -/
structure Decimal where
  negative : Bool
  mantissa : Nat
  exponent : Int
deriving DecidableEq, Repr

namespace Decimal

/-- The digits at the start of a text, with what follows them. -/
def spanDigits (s : List Char) : List Char × List Char :=
  (s.takeWhile isDigit, s.dropWhile isDigit)

/-- The exponent at the end of a decimal: nothing, or a letter `e` and a signed number. -/
def exponent? : List Char → Option Int
  | [] => some 0
  | c :: s => if c = 'e' ∨ c = 'E' then integer? s else none

/-- Reads an unsigned decimal: digits around an optional point, at least one of them, then
the exponent. -/
def ofUnsigned? (negative : Bool) (s : List Char) : Option Decimal :=
  let (whole, rest) := spanDigits s
  let (fraction, tail) := match rest with
    | '.' :: r => spanDigits r
    | _ => ([], rest)
  match naturalAux (whole ++ fraction) 0, exponent? tail with
  | some m, some e =>
    if (whole ++ fraction).isEmpty then none
    else some ⟨negative, m, e - Int.ofNat fraction.length⟩
  | _, _ => none

/-- The number of decimal digits of `n`, at least one. -/
def digitCount (n : Nat) : Nat :=
  (Nat.toDigits 10 n).length

end Decimal

namespace Single

/-- The bits of positive infinity. -/
def infinityBits : Nat := 255 * endOfBits 23

/-- The exponent of the last place when `n / d` is stored: 24 significant digits, but not
below the last place of the subnormal numbers. -/
def lastPlace (n d : Nat) : Int :=
  let l : Int := Int.ofNat (Nat.log2 n) - Int.ofNat (Nat.log2 d)
  -- the logarithm of the quotient is `l` or one less
  let floorLog :=
    if (if 0 ≤ l then d * endOfBits l.toNat ≤ n else d ≤ n * endOfBits (-l).toNat) then l else l - 1
  max (floorLog - 23) (-149)

/-- The bits of the number nearest to the positive quotient `n / d`.  The significand `m` at
last place `e` is stored as `(e + 149) * 2 ^ 23 + m`; this holds for subnormal numbers, and
also when rounding carries into the next power of two. -/
def bitsOfRatio (n d : Nat) : Nat :=
  let e := lastPlace n d
  let m := if 0 ≤ e then roundDiv n (d * endOfBits e.toNat)
    else roundDiv (n * endOfBits (-e).toNat) d
  min ((e + 149).toNat * endOfBits 23 + m) infinityBits

/-- The bits of the number nearest to `m * 10 ^ e`.  The bounds on the exponent only avoid
large powers: `10 ^ 40` is beyond the greatest number and `10 ^ (-60)` below half of the
least. -/
def magnitudeBits (m : Nat) (e : Int) : Nat :=
  if m = 0 then 0
  else
    let top := e + Int.ofNat (Decimal.digitCount m)
    if 41 < top then infinityBits
    else if top < -60 then 0
    else if 0 ≤ e then bitsOfRatio (m * Nat.pow 10 e.toNat) 1
    else bitsOfRatio m (Nat.pow 10 (-e).toNat)

/-- The number nearest to a decimal. -/
def ofDecimal (d : Decimal) : Single :=
  .bits (UInt32.ofNat (magnitudeBits d.mantissa d.exponent + if d.negative then signed32End else 0))

/-- Whether a text is the given lowercase word in any case. -/
def isWord (word : String) (s : List Char) : Bool :=
  s.map Char.toLower == word.toList

/-- Reads a number without its sign. -/
def ofUnsigned? (negative : Bool) (s : List Char) : Option Single :=
  if isWord "inf" s || isWord "infinity" s then
    some (.bits (UInt32.ofNat (infinityBits + if negative then signed32End else 0)))
  else if isWord "nan" s then some .notANumber
  else (Decimal.ofUnsigned? negative s).map ofDecimal

/-- Reads a number with an optional sign. -/
def ofChars? : List Char → Option Single
  | '+' :: s => ofUnsigned? false s
  | '-' :: s => ofUnsigned? true s
  | s => ofUnsigned? false s

/-- Positive zero. -/
def zero : Single := .bits 0

end Single

end FleetAgent.Numeral
