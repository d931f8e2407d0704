/-
# Canonical codes

A code of bit strings is given by the lengths of its words alone: words of one length are
consecutive numbers in the order of their symbols, and shorter words come first.  It is held
as a tree, in which the bits of a word are the way from the root to its symbol.

A code with two words or more must be complete, which means that every long enough row of
bits begins with a word.
-/
import FleetAgent.Deflate.Bits

namespace FleetAgent.Deflate

/-- A code: no word, a symbol whose word ends here, or a further bit. -/
inductive Code where
  | none
  | symbol (n : Nat)
  | branch (zero one : Code)
deriving DecidableEq, Repr, Inhabited

namespace Code

/-- The code with one more word. -/
def insert : Code → List Bool → Nat → Code
  | _, [], n => symbol n
  | branch zero one, b :: word, n =>
    if b then branch zero (one.insert word n) else branch (zero.insert word n) one
  | _, b :: word, n =>
    if b then branch none (none.insert word n) else branch (none.insert word n) none

/-- The word that is the number `value` in `length` bits, the highest first. -/
def word (length value : Nat) : List Bool :=
  ((List.range length).map fun i => value.testBit i).reverse

/-- The greatest length of a word. -/
def maxLength : Nat := 15

/-- The number of words of a length. -/
def count (lengths : List Nat) (length : Nat) : Nat :=
  lengths.countP (· == length)

/-- The first words of the lengths from `length` on, given that of the length before. -/
def firstWords (lengths : List Nat) : Nat → Nat → Nat → List Nat
  | 0, _, _ => []
  | fuel + 1, length, first =>
    let here := 2 * (first + if length ≤ 1 then 0 else count lengths (length - 1))
    here :: firstWords lengths fuel (length + 1) here

/-- Puts the words of the symbols from `n` on into a code; `next` holds the next word of each
length from one on. -/
def assign : List Nat → Nat → List Nat → Code → Code
  | [], _, _, code => code
  | 0 :: lengths, n, next, code => assign lengths (n + 1) next code
  | (len + 1) :: lengths, n, next, code =>
    match next[len]? with
    | some value =>
      assign lengths (n + 1) (next.set len (value + 1)) (code.insert (word (len + 1) value) n)
    | Option.none => code

/-- The code of given word lengths; zero means that a symbol has no word. -/
def ofLengths (lengths : List Nat) : Code :=
  assign lengths 0 (firstWords lengths maxLength 1 0) none

/-- The number of words. -/
def size (lengths : List Nat) : Nat :=
  lengths.countP (· != 0)

/-- The share of all rows of `maxLength` bits that begin with a word, counted in rows. -/
def weight (lengths : List Nat) : Nat :=
  (lengths.filter (· != 0)).foldr (fun len rows => Nat.pow 2 (maxLength - len) + rows) 0

/-- Whether every long enough row of bits begins with exactly one word. -/
def isComplete (lengths : List Nat) : Bool :=
  weight lengths == Nat.pow 2 maxLength

/-- The code of given word lengths, which must be complete unless it has at most one word. -/
def ofLengths? (lengths : List Nat) : Except Stop Code :=
  if isComplete lengths || size lengths ≤ 1 then .ok (ofLengths lengths) else .error .invalid

/-- Reads a word and gives its symbol. -/
def read : Code → Bits → Except Stop (Nat × Bits)
  | none, _ => .error .invalid
  | symbol n, s => .ok (n, s)
  | branch zero one, s =>
    match s.next with
    | .ok (true, s) => one.read s
    | .ok (false, s) => zero.read s
    | .error e => .error e

end Code

end FleetAgent.Deflate
