/-
# Base64

The standard alphabet with padding: three bytes are written as four letters, and one or two
bytes that remain as two or three letters followed by `=`.  `decode?` reads exactly what
`encode` writes: padding is required, and the unused bits of the last letter must be zero.
-/
namespace FleetAgent.Text.Base64

/-- The letter of a value below sixty-four. -/
def letter (n : Nat) : Char :=
  if n < 26 then Char.ofNat (0x41 + n)
  else if n < 52 then Char.ofNat (0x61 + (n - 26))
  else if n < 62 then Char.ofNat (0x30 + (n - 52))
  else if n = 62 then '+' else '/'

/-- The value of a letter. -/
def value? (c : Char) : Option Nat :=
  let n := c.toNat
  if 0x41 ≤ n ∧ n ≤ 0x5A then some (n - 0x41)
  else if 0x61 ≤ n ∧ n ≤ 0x7A then some (n - 0x61 + 26)
  else if 0x30 ≤ n ∧ n ≤ 0x39 then some (n - 0x30 + 52)
  else if c = '+' then some 62
  else if c = '/' then some 63
  else none

/-- The letters of a byte string. -/
def letters : List UInt8 → List Char
  | a :: b :: c :: rest =>
    let n := a.toNat * 65536 + b.toNat * 256 + c.toNat
    letter (n / 262144) :: letter (n / 4096 % 64) :: letter (n / 64 % 64) :: letter (n % 64)
      :: letters rest
  | [a, b] =>
    let n := a.toNat * 1024 + b.toNat * 4
    [letter (n / 4096), letter (n / 64 % 64), letter (n % 64), '=']
  | [a] =>
    let n := a.toNat * 16
    [letter (n / 64), letter (n % 64), '=', '=']
  | [] => []

/-- The text of a byte string. -/
def encode (bs : List UInt8) : String :=
  String.ofList (letters bs)

/-- Reads groups of four letters; `acc` holds the bytes read, in reverse. -/
def bytesAux : List Char → List UInt8 → Option (List UInt8)
  | [], acc => some acc.reverse
  | [w, x, '=', '='], acc =>
    match value? w, value? x with
    | some i, some j =>
      if j % 16 = 0 then some (UInt8.ofNat (i * 4 + j / 16) :: acc).reverse else none
    | _, _ => none
  | [w, x, y, '='], acc =>
    match value? w, value? x, value? y with
    | some i, some j, some k =>
      let n := i * 4096 + j * 64 + k
      if k % 4 = 0 then
        some (UInt8.ofNat (n / 4 % 256) :: UInt8.ofNat (n / 1024) :: acc).reverse
      else none
    | _, _, _ => none
  | w :: x :: y :: z :: rest, acc =>
    match value? w, value? x, value? y, value? z with
    | some i, some j, some k, some l =>
      let n := i * 262144 + j * 4096 + k * 64 + l
      bytesAux rest
        (UInt8.ofNat (n % 256) :: UInt8.ofNat (n / 256 % 256) :: UInt8.ofNat (n / 65536) :: acc)
    | _, _, _, _ => none
  | _, _ => none

/-- The bytes that a text encodes. -/
def decode? (s : String) : Option (List UInt8) :=
  bytesAux s.toList []

end FleetAgent.Text.Base64
