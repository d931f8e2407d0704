/-
# Writing archives

The layout of an archive: its entries one after another, one record of the directory for
each, and the end record.  `Member` is what an entry is written from, and `archiveOf` writes a
list of members.

A size that does not fit 32 bits saturates its field and stands in a field of wide sizes, the
size before compression first.  An entry whose sizes are not known in advance is written with
a descriptor: its header tells no sizes, and the sizes follow its data, in 64 bits each if one
of them is wide.
-/
import FleetAgent.Archive.Entry

namespace FleetAgent.Archive

/-! ## Fields -/

/-- Numbers with the width of each in bytes, one after another. -/
def fields (fs : List (Nat × Nat)) : List UInt8 :=
  fs.flatMap fun f => bytesOf f.1 f.2

/-- An extra field. -/
structure ExtraField where
  id : Nat
  data : List UInt8
deriving DecidableEq, Repr, Inhabited

/-- The bytes of an extra field. -/
def ExtraField.bytes (f : ExtraField) : List UInt8 :=
  fields [(2, f.id), (2, f.data.length)] ++ f.data

/-- A block of extra fields. -/
def extraBlock (fs : List ExtraField) : List UInt8 :=
  fs.flatMap ExtraField.bytes

/-- Whether a size does not fit 32 bits. -/
def isWideSize (n : Nat) : Bool :=
  saturated ≤ n

/-- A size in a field of 32 bits. -/
def narrow (n : Nat) : Nat :=
  min n saturated

/-- The block with the field of wide sizes; it is empty if there are no such sizes. -/
def wideBlock (sizes : List Nat) : List UInt8 :=
  if sizes.isEmpty then []
  else (ExtraField.mk wideSizesId (fields (sizes.map fun n => (8, n)))).bytes

/-! ## Entries -/

/-- How the sizes of an entry are written. -/
inductive Placement where
  /-- In the header of the entry. -/
  | header
  /-- In a descriptor behind the data, which begins with its signature or not. -/
  | descriptor (signed : Bool)
deriving DecidableEq, Repr, Inhabited

/-- What an entry is written from. -/
structure Member where
  name : List UInt8
  extra : List UInt8
  /-- The data as it is stored. -/
  data : List UInt8
  method : Nat
  /-- The size of the data before compression. -/
  plainSize : Nat
  checksum : Nat
  placement : Placement
  /-- The extra fields and the comment in the record of the directory. -/
  recordExtra : List UInt8
  comment : List UInt8
deriving DecidableEq, Repr, Inhabited

namespace Member

/-- A member that is stored as it is, with nothing unusual about it. -/
def stored (name data : List UInt8) : Member :=
  ⟨name, [], data, storedMethod, data.length, 0, .header, [], []⟩

/-- Whether a descriptor follows the data. -/
def isDescribed (m : Member) : Bool :=
  m.placement != .header

/-- The flags of an entry. -/
def flags (m : Member) : Nat :=
  if m.isDescribed then 8 else 0

/-- Whether one of the sizes is wide. -/
def isWide (m : Member) : Bool :=
  isWideSize m.plainSize || isWideSize m.data.length

/-- The two sizes in the header, the stored one first: if one is wide, both are written as
wide. -/
def headerSizes (m : Member) : Nat × Nat :=
  if m.isDescribed then (0, 0)
  else if m.isWide then (saturated, saturated)
  else (m.data.length, m.plainSize)

/-- The extra fields in the header. -/
def headerExtra (m : Member) : List UInt8 :=
  wideBlock (if m.isWide && !m.isDescribed then [m.plainSize, m.data.length] else []) ++ m.extra

/-- The numbers at the head of an entry. -/
def headerNumbers (m : Member) : List (Nat × Nat) :=
  [(4, entrySignature), (2, 20), (2, m.flags), (2, m.method), (4, 0),
    (4, if m.isDescribed then 0 else m.checksum), (4, m.headerSizes.1), (4, m.headerSizes.2),
    (2, m.name.length), (2, m.headerExtra.length)]

/-- The header of an entry with its name and its extra fields. -/
def header (m : Member) : List UInt8 :=
  fields m.headerNumbers ++ (m.name ++ m.headerExtra)

/-- The descriptor of an entry, if it has one. -/
def descriptor (m : Member) : List UInt8 :=
  let width := if m.isWide then 8 else 4
  match m.placement with
  | .header => []
  | .descriptor signed =>
    (if signed then fields [(4, descriptorSignature)] else [])
      ++ fields [(4, m.checksum), (width, m.data.length), (width, m.plainSize)]

/-- An entry: its header, its data and its descriptor. -/
def bytes (m : Member) : List UInt8 :=
  m.header ++ m.data ++ m.descriptor

/-- The sizes that are wide, the one before compression first. -/
def wideSizes (m : Member) : List Nat :=
  [m.plainSize, m.data.length].filter isWideSize

/-- The extra fields in the record of the directory. -/
def fullRecordExtra (m : Member) : List UInt8 :=
  wideBlock m.wideSizes ++ m.recordExtra

/-- The numbers at the head of the record of an entry that stands at `offset`. -/
def recordNumbers (m : Member) (offset : Nat) : List (Nat × Nat) :=
  [(4, directorySignature), (2, 20), (2, 20), (2, m.flags), (2, m.method), (4, 0),
    (4, m.checksum), (4, narrow m.data.length), (4, narrow m.plainSize), (2, m.name.length),
    (2, m.fullRecordExtra.length), (2, m.comment.length), (8, 0), (4, offset)]

/-- The record of an entry that stands at `offset`. -/
def record (m : Member) (offset : Nat) : List UInt8 :=
  fields (m.recordNumbers offset) ++ (m.name ++ (m.fullRecordExtra ++ m.comment))

end Member

/-! ## Archives -/

/-- The entries of an archive. -/
def entriesOf (ms : List Member) : List UInt8 :=
  ms.flatMap Member.bytes

/-- The records of members whose entries stand from `offset` on. -/
def recordsFrom : Nat → List Member → List UInt8
  | _, [] => []
  | offset, m :: ms => m.record offset ++ recordsFrom (offset + m.bytes.length) ms

/-- The numbers at the head of the end record of a directory of `count` records, with the
length of a comment. -/
def endNumbers (count size offset comment : Nat) : List (Nat × Nat) :=
  [(4, endSignature), (4, 0), (2, count), (2, count), (4, size), (4, offset), (2, comment)]

/-- The end record of a directory of `count` records, with a comment. -/
def endRecord (count size offset : Nat) (comment : List UInt8) : List UInt8 :=
  fields (endNumbers count size offset comment.length) ++ comment

/-- The archive of a list of members, with a comment. -/
def archiveWithComment (ms : List Member) (comment : List UInt8) : List UInt8 :=
  entriesOf ms ++ recordsFrom 0 ms
    ++ endRecord ms.length (recordsFrom 0 ms).length (entriesOf ms).length comment

/-- The archive of a list of members. -/
def archiveOf (ms : List Member) : List UInt8 :=
  archiveWithComment ms []

end FleetAgent.Archive
