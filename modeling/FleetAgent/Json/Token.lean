/-
# The tokens of JSON

A document is cut into tokens by a machine that reads one character at a time
(`Lexer.step`).  Inside a string the machine remembers the text so far and, after the escape
of a high surrogate, that surrogate: the escape of a low surrogate must follow at once, and a
surrogate of either kind on its own is an error.  Raw control characters in strings, unknown
escapes, malformed numbers, numbers out of range and unknown words are errors too.
-/
import FleetAgent.Json.Value
import FleetAgent.Text.Hex

namespace FleetAgent.Json

/-- A token. -/
inductive Token where
  | openArray
  | closeArray
  | openObject
  | closeObject
  | comma
  | colon
  | string (s : String)
  | number (n : Number)
  | word (v : Value)
deriving Repr, Inhabited

namespace Lexer

/-- Where the machine stands between two characters.  Texts in progress are held in
reverse. -/
inductive Mode where
  /-- Between tokens. -/
  | between
  /-- In a row of letters. -/
  | word (acc : List Char)
  /-- In a row of characters that numbers are made of. -/
  | number (acc : List Char)
  /-- In a string, possibly right after the escape of a high surrogate. -/
  | text (acc : List Char) (high : Option Nat)
  /-- After a backslash in a string. -/
  | escape (acc : List Char) (high : Option Nat)
  /-- In a `\u` escape of which `left` digits are still to come. -/
  | unicode (acc : List Char) (high : Option Nat) (left : Nat) (value : Nat)
deriving DecidableEq, Repr, Inhabited

/-- The machine: its mode and the tokens found so far, the latest first. -/
structure State where
  mode : Mode
  found : List Token
deriving Repr, Inhabited

/-- Whether a character separates tokens. -/
def isSpace (c : Char) : Bool :=
  c == ' ' || c == '\t' || c == '\n' || c == '\r'

/-- Whether a number may go on with a character. -/
def isNumeric (c : Char) : Bool :=
  Numeral.isDigit c || c == '-' || c == '+' || c == '.' || c == 'e' || c == 'E'

/-- Whether a word may go on with a character. -/
def isLetter (c : Char) : Bool :=
  'a' ≤ c && c ≤ 'z'

/-- The token of a word. -/
def wordToken? (s : List Char) : Option Token :=
  if s = ['t', 'r', 'u', 'e'] then some (.word (.bool true))
  else if s = ['f', 'a', 'l', 's', 'e'] then some (.word (.bool false))
  else if s = ['n', 'u', 'l', 'l'] then some (.word .null)
  else none

/-- The token of a row of number characters. -/
def numberToken? (s : List Char) : Option Token :=
  match Number.ofChars? s with
  | some n => if n.inRange then some (.number n) else none
  | none => none

/-- The token of a punctuation character. -/
def punctuation? (c : Char) : Option Token :=
  if c = '[' then some .openArray
  else if c = ']' then some .closeArray
  else if c = '\x7b' then some .openObject
  else if c = '\x7d' then some .closeObject
  else if c = ',' then some .comma
  else if c = ':' then some .colon
  else none

/-- Reads a character between tokens. -/
def start? (found : List Token) (c : Char) : Option State :=
  if isSpace c then some ⟨.between, found⟩
  else if c = '"' then some ⟨.text [] none, found⟩
  else if isNumeric c && c != 'e' && c != 'E' then some ⟨.number [c], found⟩
  else if isLetter c then some ⟨.word [c], found⟩
  else (punctuation? c).map fun t => ⟨.between, t :: found⟩

/-- The character of a single-letter escape. -/
def escaped? (c : Char) : Option Char :=
  if c = '"' ∨ c = '\\' ∨ c = '/' then some c
  else if c = 'b' then some '\x08'
  else if c = 'f' then some '\x0c'
  else if c = 'n' then some '\n'
  else if c = 'r' then some '\r'
  else if c = 't' then some '\t'
  else none

/-- The mode after the last digit of a `\u` escape. -/
def closeUnicode? (acc : List Char) (high : Option Nat) (value : Nat) : Option Mode :=
  match high with
  | some h =>
    if 0xDC00 ≤ value ∧ value ≤ 0xDFFF then
      some (.text (Char.ofNat (0x10000 + (h - 0xD800) * 0x400 + (value - 0xDC00)) :: acc) none)
    else none
  | none =>
    if 0xDC00 ≤ value ∧ value ≤ 0xDFFF then none
    else if 0xD800 ≤ value ∧ value ≤ 0xDBFF then some (.text acc (some value))
    else some (.text (Char.ofNat value :: acc) none)

/-- Reads one character; an error gives nothing. -/
def step? (s : State) (c : Char) : Option State :=
  match s.mode with
  | .between => start? s.found c
  | .word acc =>
    if isLetter c then some ⟨.word (c :: acc), s.found⟩
    else match wordToken? acc.reverse with
      | some t => start? (t :: s.found) c
      | none => none
  | .number acc =>
    if isNumeric c then some ⟨.number (c :: acc), s.found⟩
    else match numberToken? acc.reverse with
      | some t => start? (t :: s.found) c
      | none => none
  | .text acc high =>
    if c = '\\' then some ⟨.escape acc high, s.found⟩
    else if high.isSome then none
    else if c = '"' then some ⟨.between, .string (String.ofList acc.reverse) :: s.found⟩
    else if c.toNat < 0x20 then none
    else some ⟨.text (c :: acc) none, s.found⟩
  | .escape acc high =>
    if c = 'u' then some ⟨.unicode acc high 4 0, s.found⟩
    else if high.isSome then none
    else (escaped? c).map fun x => ⟨.text (x :: acc) none, s.found⟩
  | .unicode acc high left value =>
    match Text.Hex.value? c with
    | none => none
    | some d =>
      if left ≤ 1 then (closeUnicode? acc high (16 * value + d)).map fun m => ⟨m, s.found⟩
      else some ⟨.unicode acc high (left - 1) (16 * value + d), s.found⟩

/-- The tokens at the end of the document. -/
def finish? (s : State) : Option (List Token) :=
  match s.mode with
  | .between => some s.found.reverse
  | .word acc => (wordToken? acc.reverse).map fun t => (t :: s.found).reverse
  | .number acc => (numberToken? acc.reverse).map fun t => (t :: s.found).reverse
  | _ => none

end Lexer

/-- The tokens of a document. -/
def Token.ofChars? (s : List Char) : Option (List Token) :=
  match s.foldlM Lexer.step? ⟨.between, []⟩ with
  | some state => Lexer.finish? state
  | none => none

end FleetAgent.Json
