/-
# What a member says of itself

A member has a title, the text that its name is read as, and the sizes that its record in the
directory tells.  Both are taken from the member alone; that a reader finds them in an archive
is shown in `Proofs/Archive/Directory.lean` and `Proofs/Archive/Entry.lean`.

`Member.Fits` says that every number of a member fits its field, and `Member.IsNarrow` that the
member is one of an archive without wide sizes.  The bytes of a narrow member are its `span`,
the sum of its parts.
-/
import FleetAgent.Proofs.Archive.Extra

namespace FleetAgent.Archive

namespace Member

/-- The text that the name of a member is read as. -/
def title (m : Member) : String :=
  Text.Utf8.decodeLossy m.name

/-- The stored size, and whether it is wide. -/
def sizes (m : Member) : Sizes :=
  ⟨m.data.length, isWideSize m.data.length⟩

/-- The numbers of a member fit the fields they are written in. -/
structure Fits (m : Member) : Prop where
  name : m.name.length < 256 ^ 2
  headerExtra : m.headerExtra.length < 256 ^ 2
  recordExtra : m.fullRecordExtra.length < 256 ^ 2
  comment : m.comment.length < 256 ^ 2
  method : m.method < 256 ^ 2
  plainSize : m.plainSize < 256 ^ 8
  storedSize : m.data.length < 256 ^ 8

/-- A member of an archive without wide sizes: its parts are not longer than their lengths can
tell, and a descriptor that has no signature does not look as if it had one. -/
structure IsNarrow (m : Member) : Prop where
  name : m.name.length ≤ 0xFFFF
  extra : m.extra.length ≤ 0xFFFF
  recordExtra : m.recordExtra.length ≤ 0xFFFF
  comment : m.comment.length ≤ 0xFFFF
  method : m.method ≤ 0xFFFF
  plainSize : m.plainSize < saturated
  storedSize : m.data.length < saturated
  unsigned : m.placement = .descriptor false → m.checksum % 256 ^ 4 ≠ descriptorSignature

/-- The length of the descriptor of a member without wide sizes. -/
def narrowDescriptor (m : Member) : Nat :=
  match m.placement with
  | .header => 0
  | .descriptor false => 12
  | .descriptor true => 16

/-- The number of bytes that a member without wide sizes takes up. -/
def span (m : Member) : Nat :=
  headerLength + m.name.length + m.extra.length + m.data.length + m.narrowDescriptor

/-! ## Lengths -/

lemma length_header (m : Member) :
    m.header.length = headerLength + (m.name.length + m.headerExtra.length) := by
  simp [header, headerNumbers, headerLength]

lemma length_record (m : Member) (offset : Nat) :
    (m.record offset).length
      = recordLength + (m.name.length + (m.fullRecordExtra.length + m.comment.length)) := by
  simp [record, recordNumbers, recordLength]

/-! ## Members without wide sizes -/

lemma isWideSize_eq_false {n : Nat} (h : n < saturated) : isWideSize n = false := by
  simpa [isWideSize] using h

variable {m : Member}

lemma IsNarrow.isWide (h : m.IsNarrow) : m.isWide = false := by
  rw [Member.isWide, isWideSize_eq_false h.plainSize, isWideSize_eq_false h.storedSize]
  rfl

lemma IsNarrow.headerExtra (h : m.IsNarrow) : m.headerExtra = m.extra := by
  simp [Member.headerExtra, h.isWide, wideBlock]

lemma IsNarrow.fullRecordExtra (h : m.IsNarrow) : m.fullRecordExtra = m.recordExtra := by
  simp [Member.fullRecordExtra, Member.wideSizes, isWideSize_eq_false h.plainSize,
    isWideSize_eq_false h.storedSize, wideBlock]

lemma IsNarrow.fits (h : m.IsNarrow) : m.Fits where
  name := Nat.lt_succ_of_le h.name
  headerExtra := h.headerExtra ▸ Nat.lt_succ_of_le h.extra
  recordExtra := h.fullRecordExtra ▸ Nat.lt_succ_of_le h.recordExtra
  comment := Nat.lt_succ_of_le h.comment
  method := Nat.lt_succ_of_le h.method
  plainSize := Nat.lt_trans h.plainSize (by decide)
  storedSize := Nat.lt_trans h.storedSize (by decide)

lemma IsNarrow.length_descriptor (h : m.IsNarrow) :
    m.descriptor.length = m.narrowDescriptor := by
  rw [descriptor, narrowDescriptor, h.isWide]
  rcases m.placement with _ | (_ | _) <;> simp

/-- A narrow member takes up the sum of its parts. -/
lemma IsNarrow.length_bytes (h : m.IsNarrow) : m.bytes.length = m.span := by
  rw [bytes, List.length_append, List.length_append, length_header, h.headerExtra,
    h.length_descriptor, span]
  omega

end Member

end FleetAgent.Archive
