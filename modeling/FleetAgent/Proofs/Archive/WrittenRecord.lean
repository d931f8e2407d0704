/-
# Records as they are written

`WrittenRecord` is a record of the directory as any writer may put it: every part of it is free, and
the stored size is the one in its narrow field or, where that is saturated, the one in the first
field of wide sizes, behind the size before compression if that is saturated too
(`WrittenRecord.Fits`).

Where such a record stands it tells its title and its stored size (`WrittenRecord.Fits.tells`), and
records that fill a directory are all that it tells (`recordsTell_recordsOf`).
-/
import FleetAgent.Proofs.Archive.Telling

namespace FleetAgent.Archive

/-- A record of the directory as it is written. -/
structure WrittenRecord where
  /-- The versions, the flags, the method, the time and the checksum. -/
  head : List UInt8
  /-- The narrow field of the stored size. -/
  compressed : Nat
  /-- The narrow field of the size before compression. -/
  uncompressed : Nat
  /-- The disk, the attributes and the position of the header. -/
  place : List UInt8
  name : List UInt8
  extra : List UInt8
  comment : List UInt8
  /-- The size of the data as it is stored. -/
  stored : Nat

namespace WrittenRecord

/-- The two sizes and the three lengths. -/
def numbers (r : WrittenRecord) : List (Nat × Nat) :=
  [(4, r.compressed), (4, r.uncompressed), (2, r.name.length), (2, r.extra.length),
    (2, r.comment.length)]

/-- The bytes of a record. -/
def bytes (r : WrittenRecord) : List UInt8 :=
  fields [(4, directorySignature)]
    ++ (r.head ++ (fields r.numbers ++ (r.place ++ (r.name ++ (r.extra ++ r.comment)))))

/-- The parts of a record fit their places, and the stored size stands where its narrow field tells:
in that field itself or among the wide sizes, which may stand among other extra fields. -/
structure Fits (r : WrittenRecord) : Prop where
  head : r.head.length = 16
  place : r.place.length = 12
  compressed : r.compressed < 256 ^ 4
  uncompressed : r.uncompressed < 256 ^ 4
  name : r.name.length < 256 ^ 2
  extra : r.extra.length < 256 ^ 2
  comment : r.comment.length < 256 ^ 2
  narrow : r.compressed ≠ saturated → r.stored = r.compressed
  wide : r.compressed = saturated → ∃ plain,
    HoldsWide r.extra (if r.uncompressed = saturated then [plain, r.stored] else [r.stored])

/-- The text of the name. -/
def title (r : WrittenRecord) : String :=
  Text.Utf8.decodeLossy r.name

/-- The stored size, and whether it is among the wide sizes. -/
def sizes (r : WrittenRecord) : Sizes :=
  ⟨r.stored, r.compressed == saturated⟩

end WrittenRecord

/-- Records one behind the other. -/
def recordsOf (rs : List WrittenRecord) : List UInt8 :=
  rs.flatMap WrittenRecord.bytes

variable {dir : List UInt8} {r : WrittenRecord} {rs : List WrittenRecord} {i : Nat}

namespace WrittenRecord

lemma length_bytes (h : r.Fits) :
    r.bytes.length = recordLength + r.name.length + r.extra.length + r.comment.length := by
  simp only [bytes, numbers, List.length_append, length_fields, h.head, h.place, recordLength,
    List.map_cons, List.map_nil, List.sum_cons, List.sum_nil]
  omega

/-- The extra fields and the narrow sizes tell the stored size. -/
lemma Fits.tellsSizes (h : r.Fits) : TellsSizes r.extra r.compressed r.uncompressed r.sizes := by
  by_cases hsaturated : r.compressed = saturated
  · obtain ⟨plain, hholds⟩ := h.wide hsaturated
    have hindex : (if r.uncompressed = saturated then [plain, r.stored] else [r.stored])[
        storedIndex r.uncompressed]? = some r.stored := by
      rw [storedIndex]
      split_ifs <;> rfl
    obtain ⟨wide, hfirst, hstored⟩ := hholds.getElem?_eq h.extra hindex
    have hsizes : r.sizes = ⟨r.stored, true⟩ := by simp [sizes, hsaturated]
    exact hsizes ▸ .wide hsaturated wide hfirst r.stored hstored
  · have hsizes : r.sizes = ⟨r.compressed, false⟩ := by
      simp [sizes, hsaturated, h.narrow hsaturated]
    exact hsizes ▸ .narrow hsaturated

/-- Where a record has been written it tells its title and its stored size, and the next one stands
behind it. -/
lemma Fits.tells (h : r.Fits) (hat : StandsAt dir i r.bytes) :
    RecordTells dir i (r.title, r.sizes) ∧ recordStop dir i = i + r.bytes.length := by
  have hend := hat.length_le
  have hlength := length_bytes h
  have hsignature : numberAt dir i 4 = directorySignature :=
    numberAt_of_fields hat 0 rfl (by decide)
  -- the numbers stand behind the signature and the head
  have hnumbers : StandsAt dir (i + 20)
      (fields r.numbers ++ (r.place ++ (r.name ++ (r.extra ++ r.comment)))) := by
    have hbehind := hat.right.right
    rwa [length_fields, h.head, Nat.add_assoc] at hbehind
  have hcompressed : numberAt dir (i + 20) 4 = r.compressed :=
    numberAt_of_fields hnumbers 0 rfl h.compressed
  have huncompressed : numberAt dir (i + 24) 4 = r.uncompressed :=
    numberAt_of_fields hnumbers 1 rfl h.uncompressed
  have hname : numberAt dir (i + 28) 2 = r.name.length :=
    numberAt_of_fields hnumbers 2 rfl h.name
  have hextra : numberAt dir (i + 30) 2 = r.extra.length :=
    numberAt_of_fields hnumbers 3 rfl h.extra
  have hcomment : numberAt dir (i + 32) 2 = r.comment.length :=
    numberAt_of_fields hnumbers 4 rfl h.comment
  -- and the texts behind the place
  have htexts : StandsAt dir (i + recordLength) (r.name ++ (r.extra ++ r.comment)) := by
    have hbehind := hnumbers.right.right
    rwa [length_fields, h.place] at hbehind
  have hnameAt : bytesAt dir (i + recordLength) r.name.length = r.name :=
    bytesAt_of_standsAt htexts.left
  have hextraAt : bytesAt dir (i + recordLength + r.name.length) r.extra.length = r.extra :=
    bytesAt_of_standsAt htexts.right.left
  have hstop : recordStop dir i = i + r.bytes.length := by
    rw [recordStop, hname, hextra, hcomment, hlength]
    omega
  refine ⟨⟨⟨by omega, hsignature⟩, by omega, ?_, ?_⟩, hstop⟩
  · rw [recordTitleAt, hname, hnameAt]
    rfl
  · rw [recordExtraAt, hname, hextra, hextraAt, hcompressed, huncompressed]
    exact h.tellsSizes

end WrittenRecord

/-- Records that fill the rest of a directory tell their titles and their stored sizes. -/
lemma recordsTell_recordsOf (hrs : ∀ r ∈ rs, r.Fits) :
    ∀ i, StandsAt dir i (recordsOf rs) → i + (recordsOf rs).length = dir.length →
      RecordsTell dir i (rs.map fun r => (r.title, r.sizes)) := by
  induction rs with
  | nil =>
    intro i hat hend
    refine .nil i fun hbegins => ?_
    have hroom := hbegins.1
    simp only [recordsOf, List.flatMap_nil, List.length_nil] at hend
    simp only [recordLength] at hroom
    omega
  | cons r rs ih =>
    intro i hat hend
    obtain ⟨hr, hlater⟩ := List.forall_mem_cons.mp hrs
    have hsplit : recordsOf (r :: rs) = r.bytes ++ recordsOf rs := List.flatMap_cons
    rw [hsplit] at hat hend
    obtain ⟨htells, hstop⟩ := hr.tells hat.left
    refine .cons i _ _ htells (hstop ▸ ih hlater _ hat.right ?_)
    rw [List.length_append] at hend
    omega

end FleetAgent.Archive
