/-
# Integer expressions

An expression is made of numbers, names, parentheses and operators.  Operators that bind more
tightly have a higher rank, and those of one rank associate to the left.  A comparison has the
value one or zero.
-/
import FleetAgent.Numeral.Integer

namespace FleetAgent.Machine.Expression

/-- The value that a truth value counts as. -/
def ofBool (b : Bool) : Int :=
  if b then 1 else 0

/-- The operators with their ranks, longer ones first. -/
def operators : List (List Char × Nat × (Int → Int → Option Int)) :=
  [(['|', '|'], 1, fun a b => some (ofBool (a != 0 || b != 0))),
    (['&', '&'], 2, fun a b => some (ofBool (a != 0 && b != 0))),
    (['=', '='], 3, fun a b => some (ofBool (a == b))),
    (['!', '='], 3, fun a b => some (ofBool (a != b))),
    (['<', '='], 4, fun a b => some (ofBool (a ≤ b))),
    (['>', '='], 4, fun a b => some (ofBool (b ≤ a))),
    (['<'], 4, fun a b => some (ofBool (a < b))),
    (['>'], 4, fun a b => some (ofBool (b < a))),
    (['+'], 5, fun a b => some (a + b)),
    (['-'], 5, fun a b => some (a - b)),
    (['*'], 6, fun a b => some (a * b)),
    (['/'], 6, fun a b => if b = 0 then none else some (a.tdiv b)),
    (['%'], 6, fun a b => if b = 0 then none else some (a.tmod b))]

/-- Skips blanks. -/
def blanks (s : List Char) : List Char :=
  s.dropWhile fun c => c == ' ' || c == '\t' || c == '\n'

/-- The operator that a text begins with, and what follows it. -/
def operator? (s : List Char) : Option ((Nat × (Int → Int → Option Int)) × List Char) :=
  operators.findSome? fun o =>
    if o.1.isPrefixOf s then some (o.2, s.drop o.1.length) else none

/-- Whether a character may stand in a name or a number. -/
def isWordChar (c : Char) : Bool :=
  c.isAlphanum || c == '_' || c == '$'

/-- The value of a name or a number. -/
def wordValue (lookup : String → String) (w : List Char) : Option Int :=
  match Numeral.natural? w with
  | some n => some n
  | none =>
    let name := w.dropWhile (· == '$')
    if name.isEmpty then none
    else some ((Numeral.integer? (lookup (String.ofList name)).toList).getD 0)

mutual

/-- Reads an operand. -/
def operand (lookup : String → String) : Nat → List Char → Option (Int × List Char)
  | 0, _ => none
  | fuel + 1, s =>
    match blanks s with
    | '(' :: s => do
      let (a, s) ← operand lookup fuel s
      let (a, s) ← operation lookup fuel 0 a s
      match blanks s with
      | ')' :: s => return (a, s)
      | _ => none
    | '-' :: s => (operand lookup fuel s).map fun r => (-r.1, r.2)
    | '+' :: s => operand lookup fuel s
    | '!' :: s => (operand lookup fuel s).map fun r => (ofBool (r.1 == 0), r.2)
    | s => (wordValue lookup (s.takeWhile isWordChar)).map fun a => (a, s.dropWhile isWordChar)

/-- Reads operators of at least a rank with their second operands, behind a first operand. -/
def operation (lookup : String → String) :
    Nat → Nat → Int → List Char → Option (Int × List Char)
  | 0, _, _, _ => none
  | fuel + 1, rank, a, s =>
    match operator? (blanks s) with
    | none => some (a, s)
    | some ((r, apply), rest) =>
      if r < rank then some (a, s)
      else do
        let (b, rest) ← operand lookup fuel rest
        let (b, rest) ← operation lookup fuel (r + 1) b rest
        operation lookup fuel rank (← apply a b) rest

end

/-- The value of an expression. -/
def value? (lookup : String → String) (s : List Char) : Option Int :=
  let fuel := 2 * s.length + 2
  match (operand lookup fuel s).bind fun r => operation lookup fuel 0 r.1 r.2 with
  | some (a, rest) => if (blanks rest).isEmpty then some a else none
  | none => none

end FleetAgent.Machine.Expression
