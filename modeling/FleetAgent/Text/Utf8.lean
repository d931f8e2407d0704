/-
# UTF-8

Bytes are decoded one at a time.  Between characters the decoder holds nothing; inside a
character it remembers how many continuation bytes are owed and between which bounds the
next one must lie (`Pending`).  A byte outside these bounds ends the ill-formed part before
it and is then read as a first byte itself, so every ill-formed part is a maximal subpart in
the sense of the standard.

`pieces` lists the characters and the ill-formed parts of a byte string in order; `decode?`
accepts the strings without ill-formed parts, and `decodeLossy` writes U+FFFD for each of
them.
-/
namespace FleetAgent.Text.Utf8

/-- A character whose continuation bytes have not all been read. -/
structure Pending where
  /-- The number of continuation bytes still owed, at least one. -/
  owed : Nat
  /-- The least value of the next byte. -/
  low : UInt8
  /-- The greatest value of the next byte. -/
  high : UInt8
  /-- The code point bits read so far. -/
  code : Nat
deriving DecidableEq, Repr

/-- What a first byte begins: a character of its own, a longer one, or nothing. -/
inductive Lead where
  | single (c : Char)
  | multi (p : Pending)
  | bad
deriving DecidableEq, Repr

/-- The reading of a byte between characters. -/
def lead (b : UInt8) : Lead :=
  let n := b.toNat
  if n < 0x80 then .single (Char.ofNat n)
  else if 0xC2 ≤ n ∧ n ≤ 0xDF then .multi ⟨1, 0x80, 0xBF, n - 0xC0⟩
  else if n = 0xE0 then .multi ⟨2, 0xA0, 0xBF, 0⟩
  else if n = 0xED then .multi ⟨2, 0x80, 0x9F, 0xD⟩
  else if 0xE1 ≤ n ∧ n ≤ 0xEF then .multi ⟨2, 0x80, 0xBF, n - 0xE0⟩
  else if n = 0xF0 then .multi ⟨3, 0x90, 0xBF, 0⟩
  else if 0xF1 ≤ n ∧ n ≤ 0xF3 then .multi ⟨3, 0x80, 0xBF, n - 0xF0⟩
  else if n = 0xF4 then .multi ⟨3, 0x80, 0x8F, 4⟩
  else .bad

/-- The decoder between two bytes: the character in progress and the pieces found so far,
the latest first.  An ill-formed part is the piece `none`. -/
structure Decoder where
  pending : Option Pending
  found : List (Option Char)
deriving Repr

/-- Reads a byte as a first byte. -/
def Decoder.begin (found : List (Option Char)) (b : UInt8) : Decoder :=
  match lead b with
  | .single c => ⟨none, some c :: found⟩
  | .multi p => ⟨some p, found⟩
  | .bad => ⟨none, none :: found⟩

/-- Reads one byte. -/
def Decoder.step (d : Decoder) (b : UInt8) : Decoder :=
  match d.pending with
  | none => Decoder.begin d.found b
  | some p =>
    if p.low ≤ b ∧ b ≤ p.high then
      let code := p.code * 64 + (b.toNat - 0x80)
      if p.owed ≤ 1 then ⟨none, some (Char.ofNat code) :: d.found⟩
      else ⟨some ⟨p.owed - 1, 0x80, 0xBF, code⟩, d.found⟩
    else Decoder.begin (none :: d.found) b

/-- The pieces after the last byte: a character in progress is an ill-formed part. -/
def Decoder.finish (d : Decoder) : List (Option Char) :=
  (match d.pending with
    | none => d.found
    | some _ => none :: d.found).reverse

/-- The characters of a byte string in order, with `none` for each ill-formed part. -/
def pieces (bs : List UInt8) : List (Option Char) :=
  (bs.foldl Decoder.step ⟨none, []⟩).finish

/-- The text that a well-formed byte string encodes. -/
def decode? (bs : List UInt8) : Option String :=
  ((pieces bs).mapM id).map String.ofList

/-- The character that stands for an ill-formed part. -/
def replacement : Char := Char.ofNat 0xFFFD

/-- The characters of a byte string, ill-formed parts replaced. -/
def decodeLossyChars (bs : List UInt8) : List Char :=
  (pieces bs).map (·.getD replacement)

/-- The text of a byte string, ill-formed parts replaced. -/
def decodeLossy (bs : List UInt8) : String :=
  String.ofList (decodeLossyChars bs)

/-- The bytes of a text. -/
def encode (s : String) : List UInt8 :=
  s.toList.flatMap String.utf8EncodeChar

end FleetAgent.Text.Utf8
