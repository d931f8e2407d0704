/-
# Distinguished encoding

Values are encoded as a tag, a length and the content.  The length takes one byte below 128
and otherwise as few bytes as it needs, behind a byte that tells how many.  An integer that
is not negative has no leading zero byte, except where its first bit would be set.
-/
namespace FleetAgent.Crypto.Der

/-- A number in base 256, the most significant byte first. -/
def bytesOfNat (n : Nat) : List UInt8 :=
  if _h : n = 0 then [] else bytesOfNat (n / 256) ++ [UInt8.ofNat (n % 256)]
termination_by n
decreasing_by omega

/-- The number that bytes denote, the most significant first. -/
def natOfBytes (bs : List UInt8) : Nat :=
  bs.foldl (fun n b => 256 * n + b.toNat) 0

/-- The encoding of a length. -/
def length (n : Nat) : List UInt8 :=
  if n < 128 then [UInt8.ofNat n]
  else
    let bs := bytesOfNat n
    UInt8.ofNat (0x80 + bs.length) :: bs

/-- The encoding of a value with a tag. -/
def encode (tag : UInt8) (content : List UInt8) : List UInt8 :=
  tag :: length content.length ++ content

/-- The tag of an integer. -/
def integerTag : UInt8 := 0x02

/-- The tag of a string of bits. -/
def bitStringTag : UInt8 := 0x03

/-- The tag of a string of bytes. -/
def octetStringTag : UInt8 := 0x04

/-- The tag of a sequence. -/
def sequenceTag : UInt8 := 0x30

/-- The content of an integer that is not negative. -/
def integerContent (n : Nat) : List UInt8 :=
  match bytesOfNat n with
  | [] => [0]
  | b :: bs => if b < 128 then b :: bs else 0 :: b :: bs

/-- The encoding of an integer that is not negative. -/
def integer (n : Nat) : List UInt8 :=
  encode integerTag (integerContent n)

/-- Reads a length. -/
def length? : List UInt8 → Option (Nat × List UInt8)
  | [] => none
  | b :: rest =>
    if b < 128 then some (b.toNat, rest)
    else
      let k := b.toNat - 128
      let n := natOfBytes (rest.take k)
      if 1 ≤ k ∧ k ≤ 4 ∧ k ≤ rest.length ∧ length n = b :: rest.take k then
        some (n, rest.drop k)
      else none

/-- Reads a value with a given tag: its content, and what follows it. -/
def value? (tag : UInt8) (bs : List UInt8) : Option (List UInt8 × List UInt8) :=
  match bs with
  | b :: rest =>
    if b = tag then
      match length? rest with
      | some (n, rest) => if n ≤ rest.length then some (rest.take n, rest.drop n) else none
      | none => none
    else none
  | [] => none

/-- Reads an integer that is not negative. -/
def integer? (bs : List UInt8) : Option (Nat × List UInt8) :=
  match value? integerTag bs with
  | some (content, rest) =>
    let n := natOfBytes content
    if integerContent n = content then some (n, rest) else none
  | none => none

/-- Reads `k` integers that are not negative. -/
def integers? : Nat → List UInt8 → Option (List Nat × List UInt8)
  | 0, bs => some ([], bs)
  | k + 1, bs => do
    let (n, bs) ← integer? bs
    let (ns, bs) ← integers? k bs
    return (n :: ns, bs)

end FleetAgent.Crypto.Der
