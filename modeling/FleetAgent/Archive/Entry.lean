/-
# Entries

An entry begins with a header of 30 bytes, its name and its extra fields; its stored data
follows.  Where flag bit 3 is set, the header does not tell the stored size, which is then
taken from the central directory, and a data descriptor follows the data.  Whether the
descriptor has a signature of its own is seen from its first four bytes.
-/
import FleetAgent.Archive.Directory

namespace FleetAgent.Archive

/-- The signature of an entry. -/
def entrySignature : Nat := 0x04034b50

/-- The optional signature of a data descriptor. -/
def descriptorSignature : Nat := 0x08074b50

/-- The length of the fixed part of an entry's header. -/
def headerLength : Nat := 30

/-- The greatest length of a name and the extra fields together. -/
def maxNameExtra : Nat := 2 * 0xFFFF

/-- The method of data that is stored as it is. -/
def storedMethod : Nat := 0

/-- The method of deflated data. -/
def deflatedMethod : Nat := 8

/-- An entry of an archive. -/
structure Entry where
  name : String
  flags : Nat
  method : Nat
  /-- The position of the stored data. -/
  dataOffset : Nat
  /-- The length of the stored data. -/
  storedSize : Nat
  /-- Whether a data descriptor has wide sizes. -/
  wide : Bool
deriving DecidableEq, Repr, Inhabited

/-- Whether a data descriptor follows the data. -/
def Entry.hasDescriptor (e : Entry) : Bool :=
  e.flags / 8 % 2 == 1

/-- The stored size that the header itself tells: where one of its two sizes is saturated,
the second wide size. -/
def headerSizes (name : String) (extra : List UInt8) (compressed uncompressed : Nat) :
    Except Failure Sizes := do
  if compressed = saturated ∨ uncompressed = saturated then
    return ⟨← wideSize name extra 1, true⟩
  else return ⟨compressed, false⟩

/-- The sizes of an entry, given those of its header. -/
def entrySizes (directory : Except Failure Directory) (name : String) (described : Bool)
    (own : Sizes) : Except Failure Sizes := do
  if described then
    match (← directory).sizes? name with
    -- the descriptor is wide if either record has wide sizes
    | some listed => return ⟨listed.stored, own.wide || listed.wide⟩
    | none => .error (.corrupt (.notInDirectory name))
  else return own

/-- The entry at a position. -/
def Entry.ofArchive (archive : List UInt8) (directory : Except Failure Directory) (pos : Nat) :
    Except Failure Entry := do
  let header ← read archive pos headerLength headerLength
  let flags ← field header 6 2
  let method ← field header 8 2
  let compressed ← field header 18 4
  let uncompressed ← field header 22 4
  let nameLength ← field header 26 2
  let extraLength ← field header 28 2
  let nameStart ← add pos headerLength
  let nameExtra ← read archive nameStart (nameLength + extraLength) maxNameExtra
  let name := Text.Utf8.decodeLossy (nameExtra.take nameLength)
  let own ← headerSizes name (nameExtra.drop nameLength) compressed uncompressed
  let sizes ← entrySizes directory name (flags / 8 % 2 == 1) own
  let dataOffset ← add nameStart (nameLength + extraLength)
  return ⟨name, flags, method, dataOffset, sizes.stored, sizes.wide⟩

/-- The length of the data descriptor at a position. -/
def descriptorLength (archive : List UInt8) (pos : Nat) (wide : Bool) : Except Failure Nat := do
  let sizes := if wide then 16 else 8
  -- at the very end of an archive there is no room for a signature
  if (← add pos 4) ≤ archive.length then
    if (← read32 archive pos) = descriptorSignature then return 8 + sizes
    else return 4 + sizes
  else return 4 + sizes

/-- The position behind an entry: behind its data, and its descriptor if it has one. -/
def Entry.stop (e : Entry) (archive : List UInt8) (dataStop : Nat) : Except Failure Nat := do
  if e.hasDescriptor then add dataStop (← descriptorLength archive dataStop e.wide)
  else return dataStop

end FleetAgent.Archive
