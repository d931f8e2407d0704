/-
# JSON values

A value of a JSON document.  An object keeps its members in the order of the document, with
repeated names; looking a name up gives the last member of that name (`Value.field?`).  A
number keeps the parts it is written with, so that no digit is lost between reading and
writing.
-/
import FleetAgent.Numeral.Integer
import FleetAgent.Numeral.Rounding

namespace FleetAgent.Json

/-- The exponent of a written number: its sign character, if any, and its digits. -/
structure Exponent where
  mark : Char
  sign : Option Char
  digits : List Char
deriving DecidableEq, Repr, Inhabited

/-- A written number: `-12.50e+3` has all parts. -/
structure Number where
  negative : Bool
  whole : List Char
  fraction : Option (List Char)
  exponent : Option Exponent
deriving DecidableEq, Repr, Inhabited

/-- A JSON value. -/
inductive Value where
  | null
  | bool (b : Bool)
  | number (n : Number)
  | string (s : String)
  | array (items : List Value)
  | object (members : List (String × Value))
deriving Repr, Inhabited

namespace Number

/-- A natural number in decimal digits. -/
def ofNat (n : Nat) : Number :=
  ⟨false, Nat.toDigits 10 n, none, none⟩

/-- The value of a number written as digits alone. -/
def natural? (n : Number) : Option Nat :=
  if n.negative then none
  else match n.fraction, n.exponent with
    | none, none => Numeral.natural? n.whole
    | _, _ => none

/-- The value of a number written as digits after an optional minus sign. -/
def integer? (n : Number) : Option Int :=
  match n.fraction, n.exponent with
  | none, none =>
    (Numeral.natural? n.whole).map fun m => if n.negative then -Int.ofNat m else Int.ofNat m
  | _, _ => none

/-- The written form. -/
def chars (n : Number) : List Char :=
  (if n.negative then ['-'] else []) ++ n.whole
    ++ (match n.fraction with
      | some f => '.' :: f
      | none => [])
    ++ (match n.exponent with
      | some e => e.mark :: e.sign.toList ++ e.digits
      | none => [])

/-- Whether digits are those of a whole part: not empty, and no zero in front of another
digit. -/
def isWhole (ds : List Char) : Bool :=
  match ds with
  | [] => false
  | c :: cs => ds.all Numeral.isDigit && (c != '0' || cs.isEmpty)

/-- Reads an exponent that makes up the rest of a number. -/
def exponent? : List Char → Option (Option Exponent)
  | [] => some none
  | mark :: rest =>
    if mark = 'e' ∨ mark = 'E' then
      let (sign, digits) := match rest with
        | '+' :: ds => (some '+', ds)
        | '-' :: ds => (some '-', ds)
        | ds => (none, ds)
      if !digits.isEmpty && digits.all Numeral.isDigit then some (some ⟨mark, sign, digits⟩)
      else none
    else none

/-- Reads a number without its minus sign. -/
def ofUnsigned? (negative : Bool) (s : List Char) : Option Number :=
  let whole := s.takeWhile Numeral.isDigit
  if !isWhole whole then none
  else match s.dropWhile Numeral.isDigit with
    | '.' :: rest =>
      let fraction := rest.takeWhile Numeral.isDigit
      if fraction.isEmpty then none
      else (exponent? (rest.dropWhile Numeral.isDigit)).map
        fun e => ⟨negative, whole, some fraction, e⟩
    | rest => (exponent? rest).map fun e => ⟨negative, whole, none, e⟩

/-- Reads a written number. -/
def ofChars? : List Char → Option Number
  | '-' :: s => ofUnsigned? true s
  | s => ofUnsigned? false s

/-! ## Range

A number is in range when it does not exceed the greatest double-precision number.  The
test follows the usual fast conversion: as many leading digits as fit 64 bits make the
significand, the other digits of the whole part count into the exponent, and significand and
power of ten are each rounded to 53 bits before they are multiplied. -/

/-- The significand after one more digit, if it still fits 64 bits. -/
def extend? (m : Nat) (c : Char) : Option Nat :=
  let next := 10 * m + (c.toNat - '0'.toNat)
  if next < Numeral.unsigned64End then some next else none

/-- The significand of the leading digits and the number of digits that follow them. -/
def leading : List Char → Nat → Nat × Nat
  | [], m => (m, 0)
  | c :: cs, m =>
    match extend? m c with
    | some next => leading cs next
    | none => (m, (c :: cs).length)

/-- The value of the exponent. -/
def exponentValue (n : Number) : Int :=
  match n.exponent with
  | none => 0
  | some e =>
    let v := Int.ofNat ((Numeral.naturalAux e.digits 0).getD 0)
    if e.sign = some '-' then -v else v

/-- The significand and the exponent of ten of the conversion. -/
def scientific (n : Number) : Nat × Int :=
  let (m, skipped) := leading n.whole 0
  let fraction := n.fraction.getD []
  let (m', unread) := leading fraction m
  (m', Int.ofNat skipped - Int.ofNat (fraction.length - unread) + n.exponentValue)

/-- The least product that rounds to infinity: half a unit above the greatest number. -/
def overflowBound : Nat := (Numeral.endOfBits 54 - 1) * Numeral.endOfBits 970

/-- Whether the number is in the range of double precision. -/
def inRange (n : Number) : Bool :=
  match n.fraction, n.exponent, (leading n.whole 0).2 with
  | none, none, 0 => true
  | _, _, _ =>
    let (m, e) := n.scientific
    if m = 0 ∨ e < 0 then true
    else if 308 < e then false
    else Numeral.roundBits 53 m * Numeral.roundBits 53 (Nat.pow 10 e.toNat) < overflowBound

end Number

namespace Value

/-- The value of the last member called `name` in a list of members. -/
def lookup? (name : String) (members : List (String × Value)) : Option Value :=
  (members.reverse.find? fun m => m.1 == name).map Prod.snd

/-- The value of the member called `name`, when the value is an object that has one. -/
def field? (name : String) : Value → Option Value
  | object members => lookup? name members
  | _ => none

/-- The text of a string value. -/
def text? : Value → Option String
  | string s => some s
  | _ => none

/-- The truth value of a boolean. -/
def bool? : Value → Option Bool
  | bool b => some b
  | _ => none

/-- The members of an object. -/
def members? : Value → Option (List (String × Value))
  | object members => some members
  | _ => none

/-- The items of an array. -/
def items? : Value → Option (List Value)
  | array items => some items
  | _ => none

/-- The value of a number written as digits alone. -/
def natural? : Value → Option Nat
  | number n => n.natural?
  | _ => none

end Value

end FleetAgent.Json
