/-
# The central directory

An archive ends with a directory of its entries and a record that tells where the directory
stands.  The record is the last one in the archive that has room for its fixed part; what
follows it is a comment.  Where a field of the record is saturated, a locator in front of the
record leads to a wide end record.

A directory is read as the list of the names and stored sizes of its entries, the last record
first; looking a name up gives its last record.
-/
import FleetAgent.Archive.Extra
import FleetAgent.Text.Utf8

namespace FleetAgent.Archive

/-- The signature of a record of the directory. -/
def directorySignature : Nat := 0x02014b50

/-- The signature of the end record. -/
def endSignature : Nat := 0x06054b50

/-- The signature of the locator of the wide end record. -/
def locatorSignature : Nat := 0x07064b50

/-- The signature of the wide end record. -/
def wideEndSignature : Nat := 0x06064b50

/-- The length of the fixed part of the end record. -/
def endLength : Nat := 22

/-- The greatest length of a comment behind the end record. -/
def maxComment : Nat := 0xFFFF

/-- The length of the fixed part of a directory record. -/
def recordLength : Nat := 46

/-- What the directory tells about an entry: its stored size, and whether that size is
wide. -/
structure Sizes where
  stored : Nat
  wide : Bool
deriving DecidableEq, Repr, Inhabited

/-- The names and sizes of the entries, the last record first. -/
abbrev Directory := List (String × Sizes)

/-- The sizes in the last record of a name. -/
def Directory.sizes? (d : Directory) (name : String) : Option Sizes :=
  List.lookup name d

/-! ## Finding the directory -/

/-- Whether an end record begins here. -/
def beginsEnd : List UInt8 → Bool
  | 0x50 :: 0x4b :: 0x05 :: 0x06 :: rest => !(rest.drop (endLength - 5)).isEmpty
  | _ => false

/-- Looks for the last end record; `i` is the position reached and `found` the last record
before it. -/
def lastEndFrom : List UInt8 → Nat → Option Nat → Option Nat
  | [], _, found => found
  | b :: bs, i, found => lastEndFrom bs (i + 1) (if beginsEnd (b :: bs) then some i else found)

/-- The position of the last end record. -/
def lastEnd? (tail : List UInt8) : Option Nat :=
  lastEndFrom tail 0 none

/-- The offset and the size of the directory, from the wide end record that the locator in
front of position `i` leads to. -/
def wideExtent (archive tail : List UInt8) (i : Nat) : Except Failure (Nat × Nat) := do
  -- the locator takes up the 20 bytes in front of the end record
  if i < 20 then .error (.corrupt .noLocator)
  else if (← field tail (i - 20) 4) ≠ locatorSignature then .error (.corrupt .noLocator)
  else
    let start ← field tail (i - 20 + 8) 8
    let record ← read archive start 56 56
    if (← field record 0 4) ≠ wideEndSignature then .error (.corrupt .noWideEndRecord)
    else return (← field record 48 8, ← field record 40 8)

/-- The offset and the size of the directory. -/
def directoryExtent (archive : List UInt8) : Except Failure (Nat × Nat) := do
  let len := archive.length
  if len < endLength then .error (.corrupt .tooShort)
  else
    -- a comment may follow the record, so the record is looked for in the whole tail
    let tailLength := min len (endLength + maxComment)
    let tail ← read archive (len - tailLength) tailLength len
    match lastEnd? tail with
    | none => .error (.corrupt .noEndRecord)
    | some i =>
      let size ← field tail (i + 12) 4
      let offset ← field tail (i + 16) 4
      if offset ≠ saturated ∧ size ≠ saturated then .ok (offset, size)
      else wideExtent archive tail i

/-! ## Reading its records -/

/-- The stored size in a record: the narrow field or, if that is saturated, the wide size
behind the uncompressed one, where both are wide. -/
def recordSizes (name : String) (extra : List UInt8) (compressed uncompressed : Nat) :
    Except Failure Sizes := do
  if compressed = saturated then
    let stored ← wideSize name extra (if uncompressed = saturated then 1 else 0)
    return ⟨stored, true⟩
  else return ⟨compressed, false⟩

/-- The record at position `i`, with the position behind it. -/
def directoryRecord (dir : List UInt8) (i : Nat) : Except Failure ((String × Sizes) × Nat) := do
  let compressed ← field dir (i + 20) 4
  let uncompressed ← field dir (i + 24) 4
  let nameLength ← field dir (i + 28) 2
  let extraLength ← field dir (i + 30) 2
  let commentLength ← field dir (i + 32) 2
  let nameStart ← add i recordLength
  let extraStart ← add nameStart nameLength
  let next ← add (← add extraStart extraLength) commentLength
  if dir.length < next then .error (.corrupt .truncatedDirectory)
  else
    match slice? dir nameStart nameLength, slice? dir extraStart extraLength with
    | some nameBytes, some extra =>
      let name := Text.Utf8.decodeLossy nameBytes
      let sizes ← recordSizes name extra compressed uncompressed
      return ((name, sizes), next)
    | _, _ => .error (.fault .outOfBounds)

/-- Reads records from position `i` on, until no record begins. -/
def directoryFrom (dir : List UInt8) : Nat → Nat → Directory → Except Failure Directory
  | 0, _, _ => .error (.fault .endless)
  | fuel + 1, i, done => do
    if (← add i recordLength) ≤ dir.length then
      if (← field dir i 4) = directorySignature then
        let (entry, next) ← directoryRecord dir i
        directoryFrom dir fuel next (entry :: done)
      -- what follows the records is left alone
      else .ok done
    else .ok done

/-- The directory of an archive. -/
def Directory.ofArchive (archive : List UInt8) : Except Failure Directory := do
  let (offset, size) ← directoryExtent archive
  if archive.length < offset + size then .error (.corrupt .directoryPastEnd)
  else
    let dir ← read archive offset size archive.length
    directoryFrom dir (dir.length + 1) 0 []

end FleetAgent.Archive
