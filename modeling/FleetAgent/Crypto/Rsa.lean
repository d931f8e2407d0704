/-
# RSA keys

A private key is a modulus, which is the product of two primes, with a public and a private
exponent.  It is kept as an armoured PKCS#8 document; the public half is given away as an
armoured document of its own.  A message is signed by raising its padded digest to the
private exponent (RSASSA-PKCS1-v1_5 with SHA-256).
-/
import FleetAgent.Crypto.Der
import FleetAgent.Crypto.Pem
import FleetAgent.Crypto.Sha256

namespace FleetAgent.Crypto.Rsa

/-- The numbers of a private key. -/
structure PrivateKey where
  modulus : Nat
  publicExponent : Nat
  privateExponent : Nat
  prime1 : Nat
  prime2 : Nat
deriving DecidableEq, Repr, Inhabited

/-! ## Arithmetic -/

/-- Goes through the bits of `e` from the lowest on; `base` is the power that belongs to the
bit and `acc` the product so far. -/
def powModFrom (m : Nat) : Nat → Nat → Nat → Nat → Nat
  | 0, _, _, acc => acc
  | fuel + 1, base, e, acc =>
    if e = 0 then acc
    else
      let acc := if e % 2 = 1 then acc * base % m else acc
      powModFrom m fuel (base * base % m) (e / 2) acc

/-- The power `b ^ e` modulo `m`. -/
def powMod (b e m : Nat) : Nat :=
  powModFrom m (Nat.log2 e + 1) (b % m) e (1 % m)

/-- The number of bits of a number. -/
def bitLength (n : Nat) : Nat :=
  if n = 0 then 0 else Nat.log2 n + 1

/-- The number of bytes of the modulus, which is the length of a signature. -/
def PrivateKey.size (k : PrivateKey) : Nat :=
  (bitLength k.modulus + 7) / 8

/-! ## Validity -/

/-- The greatest size of a modulus in bits. -/
def maxModulusBits : Nat := 4096

/-- Whether the numbers fit together: the modulus is odd, not too large, and the product of
the primes; the public exponent is odd and of moderate size; and the exponents are inverse to
each other modulo each prime less one. -/
def PrivateKey.isValid (k : PrivateKey) : Bool :=
  bitLength k.modulus ≤ maxModulusBits && k.modulus % 2 == 1
    && k.publicExponent < k.modulus && k.publicExponent % 2 == 1
    && 2 ≤ k.publicExponent && k.publicExponent < Nat.pow 2 33
    && 2 ≤ k.prime1 && 2 ≤ k.prime2 && k.prime1 * k.prime2 == k.modulus
    && k.publicExponent * k.privateExponent % (k.prime1 - 1) == 1
    && k.publicExponent * k.privateExponent % (k.prime2 - 1) == 1

/-! ## Documents -/

/-- The algorithm identifier of RSA keys. -/
def algorithm : List UInt8 :=
  Der.encode Der.sequenceTag
    [0x06, 0x09, 0x2a, 0x86, 0x48, 0x86, 0xf7, 0x0d, 0x01, 0x01, 0x01, 0x05, 0x00]

/-- The kind of a private key document. -/
def privateLabel : String := "PRIVATE KEY"

/-- The kind of a public key document. -/
def publicLabel : String := "PUBLIC KEY"

/-- The armoured public half of a key. -/
def PrivateKey.publicPem (k : PrivateKey) : String :=
  let numbers := Der.encode Der.sequenceTag (Der.integer k.modulus ++ Der.integer k.publicExponent)
  Pem.encode publicLabel
    (Der.encode Der.sequenceTag (algorithm ++ Der.encode Der.bitStringTag (0 :: numbers)))

/-- The inverse of `a` modulo a prime `p`. -/
def inverseMod (a p : Nat) : Nat :=
  powMod a (p - 2) p

/-- The armoured key. -/
def PrivateKey.toPem (k : PrivateKey) : String :=
  let numbers := [0, k.modulus, k.publicExponent, k.privateExponent, k.prime1, k.prime2,
    k.privateExponent % (k.prime1 - 1), k.privateExponent % (k.prime2 - 1),
    inverseMod k.prime2 k.prime1]
  let inner := Der.encode Der.sequenceTag (numbers.flatMap Der.integer)
  Pem.encode privateLabel (Der.encode Der.sequenceTag
    (Der.integer 0 ++ algorithm ++ Der.encode Der.octetStringTag inner))

/-- The key in the inner document: a version, which must be that of two primes, and eight
numbers, of which the last three follow from the others. -/
def PrivateKey.ofInner? (bs : List UInt8) : Option PrivateKey :=
  match Der.value? Der.sequenceTag bs with
  | some (content, []) =>
    match Der.integers? 9 content with
    | some ([0, n, e, d, p, q, _, _, _], []) => some ⟨n, e, d, p, q⟩
    | _ => none
  | _ => none

/-- Whether the rest of an outer document is allowed: attributes, and the public half in
version 1 only. -/
def isTail (version : Nat) (bs : List UInt8) : Bool :=
  -- 0xA0 marks attributes, and 0x81 the public half
  let rest := match Der.value? 0xA0 bs with
    | some (_, rest) => rest
    | none => bs
  if version = 0 then rest.isEmpty
  else match Der.value? 0x81 rest with
    | some (_, []) => true
    | _ => false

/-- The key in an outer document: a version, the algorithm, and the inner document. -/
def PrivateKey.ofDer? (bs : List UInt8) : Option PrivateKey :=
  match Der.value? Der.sequenceTag bs with
  | some (content, []) => do
    let (version, rest) ← Der.integer? content
    if version ≤ 1 ∧ algorithm.isPrefixOf rest then
      let (inner, tail) ← Der.value? Der.octetStringTag (rest.drop algorithm.length)
      if isTail version tail then PrivateKey.ofInner? inner else none
    else none
  | _ => none

/-- The key in an armoured document, if its numbers fit together. -/
def PrivateKey.ofPem? (text : String) : Option PrivateKey := do
  let k ← PrivateKey.ofDer? (← Pem.decode? privateLabel text)
  if k.isValid then some k else none

/-! ## Signing -/

/-- What stands in front of a digest in its padded form. -/
def digestInfo : List UInt8 :=
  [0x30, 0x31, 0x30, 0x0d, 0x06, 0x09, 0x60, 0x86, 0x48, 0x01, 0x65, 0x03, 0x04, 0x02, 0x01,
    0x05, 0x00, 0x04, 0x20]

/-- The padded digest of a message in `size` bytes, if they are enough. -/
def padded? (size : Nat) (message : List UInt8) : Option (List UInt8) :=
  let tail := digestInfo ++ Sha256.digest message
  -- eight bytes of padding at least, and three that frame it
  if size < tail.length + 11 then none
  else some (0 :: 1 :: List.replicate (size - tail.length - 3) 0xFF ++ 0 :: tail)

/-- A number in exactly `size` bytes, the most significant first. -/
def bytesOfSize (size n : Nat) : List UInt8 :=
  let bs := Der.bytesOfNat n
  List.replicate (size - bs.length) 0 ++ bs

/-- The signature of a message, if the key is large enough for one. -/
def PrivateKey.sign? (k : PrivateKey) (message : List UInt8) : Option (List UInt8) :=
  (padded? k.size message).map fun block =>
    bytesOfSize k.size (powMod (Der.natOfBytes block) k.privateExponent k.modulus)

/-! ## New keys -/

/-- The public exponent of new keys. -/
def defaultExponent : Nat := 65537

/-- Primes that are tried as divisors before a number is tested further. -/
def smallPrimes : List Nat :=
  [2, 3, 5, 7, 11, 13, 17, 19, 23, 29, 31, 37, 41, 43, 47, 53, 59, 61, 67, 71, 73, 79, 83, 89,
    97, 101, 103, 107, 109, 113, 127, 131, 137, 139, 149, 151, 157, 163, 167, 173, 179, 181,
    191, 193, 197, 199, 211, 223, 227, 229, 233, 239, 241, 251]

/-- Whether a number passes the test that primes pass for each of a few bases. -/
def passesFermat (n : Nat) : Bool :=
  [2, 3, 5, 7].all fun b => powMod b (n - 1) n == 1

/-- Whether a number is probably a prime. -/
def isProbablePrime (n : Nat) : Bool :=
  smallPrimes.all (fun p => n == p || n % p != 0) && (2 ≤ n) && (n ≤ 7 || passesFermat n)

/-- A random number made odd and exactly `bits` long, with its two highest bits set. -/
def candidate (bits random : Nat) : Nat :=
  (random % Nat.pow 2 bits) ||| 1 ||| Nat.pow 2 (bits - 1) ||| Nat.pow 2 (bits - 2)

/-- Whether a number may be a prime of a key with the default exponent. -/
def isUsable (n : Nat) : Bool :=
  isProbablePrime n && (n - 1) % defaultExponent != 0

/-- The first usable candidate of a row of random numbers, and the numbers after it. -/
def firstPrime? (bits : Nat) : List Nat → Option (Nat × List Nat)
  | [] => none
  | r :: rs =>
    if isUsable (candidate bits r) then some (candidate bits r, rs) else firstPrime? bits rs

/-- The inverse of the default exponent modulo `m`: the least `(1 + k * m) / e` without
remainder. -/
def exponentInverse (m : Nat) : Nat :=
  let k := (defaultExponent - inverseMod (m % defaultExponent) defaultExponent) % defaultExponent
  (1 + k * m) / defaultExponent

/-- Why no key can be made. -/
inductive GenerateError where
  /-- There are hardly any primes of half the size. -/
  | tooFewPrimes
  /-- The modulus would be less than the public exponent. -/
  | modulusTooSmall
  | modulusTooLarge
  /-- The random numbers do not lead to a key. -/
  | exhausted
deriving DecidableEq, Repr, Inhabited

/-- The text of a generation error. -/
def GenerateError.message : GenerateError → String
  | tooFewPrimes => "too few primes of given length to generate an RSA key"
  | modulusTooSmall => "invalid modulus"
  | modulusTooLarge => "modulus too large"
  | exhausted => "random numbers exhausted"

/-- What is wrong with the size of a new key. -/
def sizeError? (bits : Nat) : Option GenerateError :=
  if bits < 12 then some .tooFewPrimes
  else if bits < 17 then some .modulusTooSmall
  else if maxModulusBits < bits then some .modulusTooLarge
  else none

/-- A key of a given size from the first primes that a row of random numbers leads to. -/
def ofRandom? (bits : Nat) (random : List Nat) : Option PrivateKey := do
  let (p, random) ← firstPrime? (bits - bits / 2) random
  let (q, _) ← firstPrime? (bits / 2) random
  if p = q then none
  else
    let d := exponentInverse ((p - 1) * (q - 1))
    let k : PrivateKey := ⟨p * q, defaultExponent, d, p, q⟩
    if bitLength k.modulus = bits ∧ k.isValid then some k else none

/-- A new key of a given size, from a row of random numbers. -/
def generate (bits : Nat) (random : List Nat) : Except GenerateError PrivateKey :=
  match sizeError? bits with
  | some e => .error e
  | none =>
    match ofRandom? bits random with
    | some k => .ok k
    | none => .error .exhausted

end FleetAgent.Crypto.Rsa
