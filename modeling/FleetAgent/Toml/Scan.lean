/-
# The words of TOML

Scanners for the parts of a document that do not contain values: space, comments, line ends,
strings, keys, numbers and dates.  A scanner takes the rest of the document and gives what it
has read with the rest behind that, or nothing where the document is malformed.
-/
import FleetAgent.Numeral.Double
import FleetAgent.Text.Hex

namespace FleetAgent.Toml

/-- A scanner. -/
abbrev Scan (α : Type) := List Char → Option (α × List Char)

namespace Scan

/-! ## Space, comments and line ends -/

/-- Whether a character is space inside a line. -/
def isSpace (c : Char) : Bool :=
  c == ' ' || c == '\t'

/-- Whether a character may stand in a comment or a string: a tab, or no control
character. -/
def isPlain (c : Char) : Bool :=
  c == '\t' || (0x20 ≤ c.toNat && c.toNat != 0x7F)

/-- Skips space. -/
def space (s : List Char) : List Char :=
  s.dropWhile isSpace

/-- Skips a comment, if one begins here. -/
def comment : List Char → List Char
  | '#' :: s => s.dropWhile isPlain
  | s => s

/-- What follows a line end, if one is here. -/
def newline? : List Char → Option (List Char)
  | '\n' :: s => some s
  | '\r' :: '\n' :: s => some s
  | _ => none

/-- Skips the end of a line that holds nothing more than space and a comment. -/
def lineEnd? (s : List Char) : Option (List Char) :=
  match comment (space s) with
  | [] => some []
  | s => newline? s

/-- Skips space, comments and line ends; `fuel` bounds the number of lines. -/
def blankLines : Nat → List Char → List Char
  | 0, s => s
  | fuel + 1, s =>
    let rest := comment (space s)
    match newline? rest with
    | some rest => blankLines fuel rest
    | none => rest

/-- Skips space, comments and line ends.  A comment that runs into a character that no
comment may hold is left for the reader of what follows, which refuses that character. -/
def blanks (s : List Char) : List Char :=
  blankLines (s.length + 1) s

/-! ## Strings -/

/-- The value of exactly `n` hexadecimal digits. -/
def hexNumber : Nat → Nat → Scan Nat
  | 0, value, s => some (value, s)
  | n + 1, value, c :: s =>
    match Text.Hex.value? c with
    | some d => hexNumber n (16 * value + d) s
    | none => none
  | _ + 1, _, [] => none

/-- The character with a code point; surrogates and numbers beyond Unicode have none. -/
def scalar? (n : Nat) : Option Char :=
  if h : n.isValidChar then some (Char.ofNatAux n h) else none

/-- The character of an escape whose backslash has been read. -/
def escape : Scan Char
  | 'b' :: s => some ('\x08', s)
  | 'f' :: s => some ('\x0c', s)
  | 'n' :: s => some ('\n', s)
  | 'r' :: s => some ('\r', s)
  | 't' :: s => some ('\t', s)
  | '\\' :: s => some ('\\', s)
  | '"' :: s => some ('"', s)
  | 'u' :: s => do
    let (n, s) ← hexNumber 4 0 s
    return (← scalar? n, s)
  | 'U' :: s => do
    let (n, s) ← hexNumber 8 0 s
    return (← scalar? n, s)
  | _ => none

/-- The rest of a string in quotation marks; `acc` holds its characters in reverse. -/
def basicFrom : Nat → List Char → Scan String
  | 0, _, _ => none
  | fuel + 1, acc, s =>
    match s with
    | '"' :: s => some (String.ofList acc.reverse, s)
    | '\\' :: s =>
      match escape s with
      | some (c, s) => basicFrom fuel (c :: acc) s
      | none => none
    | c :: s => if isPlain c then basicFrom fuel (c :: acc) s else none
    | [] => none

/-- The rest of a string in apostrophes. -/
def literal (s : List Char) : Option (String × List Char) :=
  match s.dropWhile fun c => isPlain c && c != '\x27' with
  | '\x27' :: rest => some (String.ofList (s.takeWhile fun c => isPlain c && c != '\x27'), rest)
  | _ => none

/-- Skips space and line ends; `fuel` bounds the number of lines. -/
def emptyLines : Nat → List Char → List Char
  | 0, s => s
  | fuel + 1, s =>
    match newline? (space s) with
    | some rest => emptyLines fuel rest
    | none => space s

/-- Skips the space and the line ends behind a backslash at the end of a line. -/
def continued? (s : List Char) : Option (List Char) :=
  match newline? (space s) with
  | some rest => some (emptyLines (rest.length + 1) rest)
  | none => none

/-- Reads the quotes at the start of the text, of which three or more end a string of several
lines.  Gives the number of quotes that belong to the text and, where the string ends, what
follows it: at most two quotes may stand in front of the closing three. -/
def quotes (quote : Char) (s : List Char) : Nat × Option (List Char) :=
  let n := (s.takeWhile (· == quote)).length
  if n < 3 then (n, none)
  else
    let inside := min (n - 3) 2
    (inside, some (s.drop (inside + 3)))

/-- The rest of a string of several lines.  Escapes are read if `escapes`, and a line end in
the text becomes a line feed. -/
def linesFrom (quote : Char) (escapes : Bool) : Nat → List Char → Scan String
  | 0, _, _ => none
  | fuel + 1, acc, s =>
    match newline? s with
    | some rest => linesFrom quote escapes fuel ('\n' :: acc) rest
    | none =>
      match s with
      | [] => none
      | c :: rest =>
        if c = quote then
          match quotes quote s with
          | (n, none) =>
            linesFrom quote escapes fuel (List.replicate n quote ++ acc) (s.drop n)
          | (n, some rest) =>
            some (String.ofList (List.replicate n quote ++ acc).reverse, rest)
        else if escapes && c == '\\' then
          match continued? rest with
          | some rest => linesFrom quote escapes fuel acc rest
          | none =>
            match escape rest with
            | some (c, rest) => linesFrom quote escapes fuel (c :: acc) rest
            | none => none
        else if isPlain c then linesFrom quote escapes fuel (c :: acc) rest
        else none

/-- The rest of a string of several lines, behind the opening quotes; a line end right behind
them is left out. -/
def lines (quote : Char) (escapes : Bool) (s : List Char) : Option (String × List Char) :=
  linesFrom quote escapes (s.length + 1) [] ((newline? s).getD s)

/-- A string of one line. -/
def string : Scan String
  | '"' :: s => basicFrom (s.length + 1) [] s
  | '\x27' :: s => literal s
  | _ => none

/-- A string of any form. -/
def anyString : Scan String
  | '"' :: '"' :: '"' :: s => lines '"' true s
  | '\x27' :: '\x27' :: '\x27' :: s => lines '\x27' false s
  | s => string s

/-! ## Keys -/

/-- Whether a character may stand in a key without quotes. -/
def isKeyChar (c : Char) : Bool :=
  ('a' ≤ c && c ≤ 'z') || ('A' ≤ c && c ≤ 'Z') || Numeral.isDigit c || c == '-' || c == '_'

/-- A key of one part. -/
def simpleKey (s : List Char) : Option (String × List Char) :=
  match s with
  | '"' :: _ | '\x27' :: _ => string s
  | _ =>
    let name := s.takeWhile isKeyChar
    if name.isEmpty then none else some (String.ofList name, s.dropWhile isKeyChar)

/-- The parts of a key from here on; `fuel` bounds their number. -/
def keyFrom : Nat → Scan (List String)
  | 0, _ => none
  | fuel + 1, s => do
    let (part, s) ← simpleKey (space s)
    match space s with
    | '.' :: s => do
      let (parts, s) ← keyFrom fuel s
      return (part :: parts, s)
    | s => return ([part], s)

/-- The greatest number of parts of a key, and of arrays and inline tables inside one
another. -/
def maxDepth : Nat := 79

/-- A key with its parts, and the space around it. -/
def key : Scan (List String) :=
  keyFrom maxDepth

/-! ## Numbers -/

/-- Skips digits of a kind, with single underscores between them. -/
def digitsFrom (isDigit : Char → Bool) : List Char → List Char → Option (List Char × List Char)
  | acc, '_' :: c :: s =>
    if isDigit c then digitsFrom isDigit (c :: acc) s else none
  | _, ['_'] => none
  | acc, c :: s => if isDigit c then digitsFrom isDigit (c :: acc) s else some (acc.reverse, c :: s)
  | acc, [] => some (acc.reverse, [])

/-- A row of digits of a kind, with single underscores between them. -/
def digits (isDigit : Char → Bool) : Scan (List Char)
  | c :: s => if isDigit c then digitsFrom isDigit [c] s else none
  | [] => none

/-- A sign, if there is one: whether it is a minus sign. -/
def sign : List Char → Bool × List Char
  | '+' :: s => (false, s)
  | '-' :: s => (true, s)
  | s => (false, s)

/-- The digits of a decimal integer; a leading zero stands alone. -/
def decimal : Scan (List Char)
  | '0' :: s => some (['0'], s)
  | s => digits Numeral.isDigit s

/-- The exponent of a floating point number. -/
def exponent : Scan Int
  | c :: s =>
    if c = 'e' ∨ c = 'E' then do
      let (negative, s) := sign s
      let (ds, s) ← digits Numeral.isDigit s
      let n := Int.ofNat (← Numeral.naturalAux ds 0)
      return (if negative then -n else n, s)
    else none
  | [] => none

/-- A number: its digits and, for a floating point number, its exponent of ten. -/
structure Written where
  negative : Bool
  mantissa : Nat
  exponent : Option Int
deriving Repr

/-- Reads a fraction and an exponent behind the whole part of a number.  A point or an
exponent letter that does not lead to one is an error. -/
def fraction (whole : List Char) (negative : Bool) (s : List Char) :
    Option (Written × List Char) :=
  match s with
  | '.' :: rest => do
    let (ds, rest) ← digits Numeral.isDigit rest
    let m ← Numeral.naturalAux (whole ++ ds) 0
    match rest with
    | 'e' :: _ | 'E' :: _ => do
      let (e, rest) ← exponent rest
      return (⟨negative, m, some (e - Int.ofNat ds.length)⟩, rest)
    | _ => return (⟨negative, m, some (-Int.ofNat ds.length)⟩, rest)
  | 'e' :: _ | 'E' :: _ => do
    let (e, rest) ← exponent s
    return (⟨negative, ← Numeral.naturalAux whole 0, some e⟩, rest)
  | _ => do
    return (⟨negative, ← Numeral.naturalAux whole 0, none⟩, s)

/-- A number in decimal digits. -/
def written (s : List Char) : Option (Written × List Char) := do
  let (negative, s) := sign s
  let (whole, s) ← decimal s
  fraction whole negative s

/-- Whether an integer has 64 bits. -/
def isInt64 (n : Int) : Bool :=
  -(Numeral.signed64End : Int) ≤ n && n < Numeral.signed64End

/-- Reads digits in base `2 ^ bits`. -/
def radix (bits : Nat) (s : List Char) : Option (Int × List Char) := do
  let isDigit := fun c => match Text.Hex.value? c with
    | some d => d < Numeral.endOfBits bits
    | none => false
  let (ds, s) ← digits isDigit s
  let value := fun n c => Numeral.endOfBits bits * n + (Text.Hex.value? c).getD 0
  let n := Int.ofNat (ds.foldl value 0)
  if isInt64 n then some (n, s) else none

/-! ## Dates and times -/

/-- The value of exactly `n` decimal digits, which must lie between two bounds. -/
def fixedDigits (n low high : Nat) (s : List Char) : Option (Nat × List Char) := do
  let ds := s.take n
  if ds.length = n then
    let value ← Numeral.natural? ds
    if low ≤ value ∧ value ≤ high then some (value, s.drop n) else none
  else none

/-- Skips one given character. -/
def char? (c : Char) : List Char → Option (List Char)
  | d :: s => if d = c then some s else none
  | [] => none

/-- The number of days of a month. -/
def daysOfMonth (year month : Nat) : Nat :=
  if month = 2 then
    if year % 4 = 0 ∧ (year % 100 ≠ 0 ∨ year % 400 = 0) then 29 else 28
  else if month = 4 ∨ month = 6 ∨ month = 9 ∨ month = 11 then 30
  else 31

/-- Skips a date. -/
def date? (s : List Char) : Option (List Char) := do
  let (year, s) ← fixedDigits 4 0 9999 s
  let s ← char? '-' s
  let (month, s) ← fixedDigits 2 1 12 s
  let s ← char? '-' s
  let (_, s) ← fixedDigits 2 1 (daysOfMonth year month) s
  return s

/-- Skips a time of day. -/
def time? (s : List Char) : Option (List Char) := do
  let (_, s) ← fixedDigits 2 0 23 s
  let s ← char? ':' s
  let (_, s) ← fixedDigits 2 0 59 s
  let s ← char? ':' s
  let (_, s) ← fixedDigits 2 0 60 s
  match s with
  | '.' :: c :: rest =>
    if Numeral.isDigit c then some (rest.dropWhile Numeral.isDigit) else some s
  | _ => some s

/-- Skips the offset of a time of day, if there is one. -/
def offset? (s : List Char) : Option (List Char) :=
  match s with
  | 'Z' :: s | 'z' :: s => some s
  | '+' :: s | '-' :: s => do
    let (_, s) ← fixedDigits 2 0 23 s
    let s ← char? ':' s
    let (_, s) ← fixedDigits 2 0 59 s
    return s
  | _ => some s

/-- Whether a time of day begins here: its hour and a colon. -/
def beginsTime (s : List Char) : Bool :=
  match fixedDigits 2 0 23 s with
  | some (_, ':' :: _) => true
  | _ => false

/-- Whether a date begins here: its year and a hyphen. -/
def beginsDate (s : List Char) : Bool :=
  match fixedDigits 4 0 9999 s with
  | some (_, '-' :: _) => true
  | _ => false

/-- Skips a date and the time of day behind it, if there is one. -/
def dateTime? (s : List Char) : Option (List Char) := do
  let s ← date? s
  match s with
  | c :: rest =>
    if (c = 'T' ∨ c = 't' ∨ c = ' ') ∧ beginsTime rest then offset? (← time? rest) else some s
  | [] => some []

end Scan

end FleetAgent.Toml
