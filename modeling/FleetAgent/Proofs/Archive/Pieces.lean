/-
# Entries as they have been written

A `Piece` is an entry together with what only its writer knows for sure: how long its data is, and
how its data descriptor is written if it has one.  `Piece.StandsIn` says that the bytes of an
archive agree with it; nothing is said of the name, of further extra fields or of the data.

An entry without a descriptor is read as it has been written (`ofArchive_plain`).  Of one with a
descriptor the header tells everything but the stored size, which comes from the directory, and the
width of the descriptor, which is guessed from the header and the directory
(`ofArchive_described`).  The position behind the entry is right exactly if the width and the
signature of the descriptor are the written ones (`descriptorSizeAt_eq_iff`).
-/
import FleetAgent.Proofs.Archive.Records

namespace FleetAgent.Archive

/-! ## What the header tells -/

/-- The text of the name of the entry at a position. -/
def titleAt (archive : List UInt8) (pos : Nat) : String :=
  Text.Utf8.decodeLossy (nameAt archive pos)

/-- The position of the data of the entry at a position. -/
def dataAt (archive : List UInt8) (pos : Nat) : Nat :=
  pos + headerLength + (numberAt archive (pos + 26) 2 + numberAt archive (pos + 28) 2)

/-- Whether a descriptor follows the data of the entry at a position. -/
def isDescribedAt (archive : List UInt8) (pos : Nat) : Bool :=
  numberAt archive (pos + 6) 2 / 8 % 2 == 1

/-- The entry at a position, with a stored size and a width. -/
def entryAt (archive : List UInt8) (pos : Nat) (sizes : Sizes) : Entry :=
  ⟨titleAt archive pos, numberAt archive (pos + 6) 2, numberAt archive (pos + 8) 2,
    dataAt archive pos, sizes.stored, sizes.wide⟩

instance (archive : List UInt8) (pos : Nat) : Decidable (IsSaturatedAt archive pos) :=
  inferInstanceAs (Decidable (_ ∨ _))

variable {archive : List UInt8} {directory : Except Failure Directory} {pos : Nat}

/-- The entry at a position is read if its header lies inside the archive and its sizes are found.
-/
lemma ofArchive_entryAt_of {own sizes : Sizes} (hfile : archive.length < Numeral.signed64End)
    (hinside : dataAt archive pos ≤ archive.length)
    (hown : headerSizes (titleAt archive pos) (extraAt archive pos) (numberAt archive (pos + 18) 4)
      (numberAt archive (pos + 22) 4) = .ok own)
    (hsizes : entrySizes directory (titleAt archive pos) (isDescribedAt archive pos) own
      = .ok sizes) :
    Entry.ofArchive archive directory pos = .ok (entryAt archive pos sizes) := by
  rw [dataAt] at hinside
  have hheader : pos + headerLength ≤ archive.length := Nat.le_trans (Nat.le_add_right _ _) hinside
  have hread : read archive pos headerLength headerLength
      = .ok (bytesAt archive pos headerLength) :=
    read_eq_bytesAt hheader (Nat.le_refl _) (by omega)
  have hfield {i width : Nat} (hi : i + width ≤ headerLength) :
      field (bytesAt archive pos headerLength) i width
        = .ok (numberAt archive (pos + i) width) := by
    rw [field_eq_numberAt (by rwa [length_bytesAt hheader]), numberAt_bytesAt archive pos hi]
  have hname := numberAt_lt archive (pos + 26) 2
  have hextra := numberAt_lt archive (pos + 28) 2
  have hnameExtra : read archive (pos + headerLength)
      (numberAt archive (pos + 26) 2 + numberAt archive (pos + 28) 2) maxNameExtra
        = .ok (bytesAt archive (pos + headerLength)
          (numberAt archive (pos + 26) 2 + numberAt archive (pos + 28) 2)) :=
    read_eq_bytesAt hinside (by simp only [maxNameExtra]; omega) (by omega)
  simp only [titleAt, nameAt, extraAt] at hown hsizes
  simp only [Entry.ofArchive, hread, hfield (show 6 + 2 ≤ headerLength by decide),
    hfield (show 8 + 2 ≤ headerLength by decide), hfield (show 18 + 4 ≤ headerLength by decide),
    hfield (show 22 + 4 ≤ headerLength by decide), hfield (show 26 + 2 ≤ headerLength by decide),
    hfield (show 28 + 2 ≤ headerLength by decide), add_eq_ok_of_le hheader hfile, hnameExtra,
    add_eq_ok_of_le hinside hfile, take_bytesAt, drop_bytesAt, hown, bind, Except.bind]
  rw [isDescribedAt] at hsizes
  simp only [hsizes, pure, Except.pure, entryAt, titleAt, nameAt, dataAt]

/-! ## Pieces -/

/-- An entry as it has been written. -/
structure Piece where
  position : Nat
  /-- The length of the data. -/
  stored : Nat
  /-- Whether the sizes are written in 64 bits, in the extra fields or in the descriptor. -/
  wide : Bool
  /-- Whether the descriptor begins with its signature. -/
  signed : Bool

namespace Piece

/-- Whether a descriptor follows the data. -/
def isDescribed (p : Piece) (archive : List UInt8) : Bool :=
  isDescribedAt archive p.position

/-- The position behind the data. -/
def dataStop (p : Piece) (archive : List UInt8) : Nat :=
  dataAt archive p.position + p.stored

/-- The length of the descriptor, if there is one. -/
def descriptorSize (p : Piece) (archive : List UInt8) : Nat :=
  if p.isDescribed archive then (if p.signed then 4 else 0) + 4 + (if p.wide then 16 else 8) else 0

/-- The position behind the entry. -/
def stop (p : Piece) (archive : List UInt8) : Nat :=
  p.dataStop archive + p.descriptorSize archive

/-- The entry that the piece is. -/
def entry (p : Piece) (archive : List UInt8) : Entry :=
  entryAt archive p.position ⟨p.stored, p.wide⟩

/-- The bytes of an archive agree with a piece. -/
structure StandsIn (archive : List UInt8) (p : Piece) : Prop where
  begins : numberAt archive p.position 4 = entrySignature
  inside : p.stop archive ≤ archive.length
  /-- Where a size in the header is saturated, both sizes stand in the extra fields. -/
  saturated : IsSaturatedAt archive p.position → ∃ plain stored,
    HoldsWide (extraAt archive p.position) [plain, stored] ∧
      (p.isDescribed archive = false → stored = p.stored)
  narrow : p.isDescribed archive = false → ¬ IsSaturatedAt archive p.position →
    numberAt archive (p.position + 18) 4 = p.stored
  wide_iff : p.isDescribed archive = false → (p.wide = true ↔ IsSaturatedAt archive p.position)
  signature : p.isDescribed archive = true → p.signed = true →
    numberAt archive (p.dataStop archive) 4 = descriptorSignature

/-- What is read of a piece is what has been written. -/
structure IsRead (archive : List UInt8) (directory : Except Failure Directory) (p : Piece) :
    Prop where
  entry_eq : Entry.ofArchive archive directory p.position = .ok (p.entry archive)
  descriptorSize_eq : (p.entry archive).descriptorSize archive = p.descriptorSize archive

/-- The width and the signature of a descriptor are seen: it is wide if its header or its stored
size is, and without a signature it does not begin like one with a signature. -/
structure IsClear (archive : List UInt8) (p : Piece) : Prop where
  width : p.wide = true ↔ IsSaturatedAt archive p.position ∨ isWideSize p.stored = true
  unsigned : p.signed = false → numberAt archive (p.dataStop archive) 4 ≠ descriptorSignature

variable {p : Piece}

lemma hasDescriptor_entryAt (archive : List UInt8) (p : Piece) (sizes : Sizes) :
    (entryAt archive p.position sizes).hasDescriptor = p.isDescribed archive := rfl

lemma StandsIn.dataStop_le (h : p.StandsIn archive) : p.dataStop archive ≤ archive.length :=
  Nat.le_trans (Nat.le_add_right _ _) h.inside

lemma StandsIn.dataAt_le (h : p.StandsIn archive) : dataAt archive p.position ≤ archive.length :=
  Nat.le_trans (Nat.le_add_right _ _) h.dataStop_le

lemma lt_stop (archive : List UInt8) (p : Piece) : p.position + headerLength ≤ p.stop archive := by
  rw [stop, dataStop, dataAt]
  omega

/-- Where no size in the header is saturated, a few numbers tell whether a piece stands in an
archive. -/
lemma standsIn_of_narrow (h : numberAt archive p.position 4 = entrySignature ∧
    p.stop archive ≤ archive.length ∧ ¬ IsSaturatedAt archive p.position ∧
    if p.isDescribed archive then
      p.signed = true → numberAt archive (p.dataStop archive) 4 = descriptorSignature
    else p.wide = false ∧ numberAt archive (p.position + 18) 4 = p.stored) :
    p.StandsIn archive := by
  obtain ⟨hbegins, hinside, hnarrow, hrest⟩ := h
  cases hdescribed : p.isDescribed archive with
  | true =>
    rw [hdescribed, if_pos rfl] at hrest
    exact ⟨hbegins, hinside, fun h => absurd h hnarrow, fun h => by simp [hdescribed] at h,
      fun h => by simp [hdescribed] at h, fun _ => hrest⟩
  | false =>
    rw [hdescribed, if_neg Bool.false_ne_true] at hrest
    refine ⟨hbegins, hinside, fun h => absurd h hnarrow, fun _ _ => hrest.2, fun _ => ?_,
      fun h => ?_⟩
    · rw [hrest.1]
      exact iff_of_false Bool.false_ne_true hnarrow
    · rw [hdescribed] at h
      cases h

/-- The header of a piece tells whether it is saturated and, without a descriptor, the stored
size. -/
lemma StandsIn.headerSizes_eq (h : p.StandsIn archive) : ∃ stored,
    headerSizes (titleAt archive p.position) (extraAt archive p.position)
        (numberAt archive (p.position + 18) 4) (numberAt archive (p.position + 22) 4)
      = .ok ⟨stored, decide (IsSaturatedAt archive p.position)⟩ ∧
    (p.isDescribed archive = false → stored = p.stored) := by
  by_cases hsaturated : IsSaturatedAt archive p.position
  · obtain ⟨plain, stored, hholds, hstored⟩ := h.saturated hsaturated
    have hextra : (extraAt archive p.position).length < 256 ^ 2 :=
      Nat.lt_of_le_of_lt (length_bytesAt_le _ _ _) (numberAt_lt _ _ _)
    have hsize := hholds.wideSize_eq (k := 1) hextra rfl (titleAt archive p.position)
    refine ⟨stored, ?_, hstored⟩
    rw [headerSizes, if_pos (show _ ∨ _ from hsaturated), hsize, decide_eq_true hsaturated]
    rfl
  · refine ⟨_, ?_, fun hplain => h.narrow hplain hsaturated⟩
    rw [headerSizes, if_neg (show ¬(_ ∨ _) from hsaturated), decide_eq_false hsaturated]
    rfl

/-- A piece without a descriptor is read as it has been written. -/
lemma StandsIn.isRead_of_not_described (h : p.StandsIn archive)
    (hfile : archive.length < Numeral.signed64End) (hplain : p.isDescribed archive = false) :
    p.IsRead archive directory := by
  obtain ⟨stored, hown, hstored⟩ := h.headerSizes_eq
  obtain rfl := hstored hplain
  have hwide : decide (IsSaturatedAt archive p.position) = p.wide := by
    rw [Bool.eq_iff_iff, decide_eq_true_iff, h.wide_iff hplain]
  rw [hwide] at hown
  have hsizes : entrySizes directory (titleAt archive p.position) (isDescribedAt archive p.position)
      ⟨p.stored, p.wide⟩ = .ok ⟨p.stored, p.wide⟩ := by
    have hcase : isDescribedAt archive p.position = false := hplain
    rw [entrySizes, hcase]
    rfl
  refine ⟨ofArchive_entryAt_of hfile h.dataAt_le hown hsizes, ?_⟩
  rw [Entry.descriptorSize, descriptorSize, entry, hasDescriptor_entryAt, hplain]
  rfl

/-- Of a piece with a descriptor the directory tells the stored size, and with the header how wide
the descriptor is. -/
lemma StandsIn.ofArchive_described (h : p.StandsIn archive)
    (hfile : archive.length < Numeral.signed64End) (hdescribed : p.isDescribed archive = true)
    {d : Directory} (hd : directory = .ok d) {sizes : Sizes}
    (hsizes : d.sizes? (titleAt archive p.position) = some sizes) :
    Entry.ofArchive archive directory p.position = .ok (entryAt archive p.position
      ⟨sizes.stored, decide (IsSaturatedAt archive p.position) || sizes.wide⟩) := by
  obtain ⟨stored, hown, -⟩ := h.headerSizes_eq
  refine ofArchive_entryAt_of hfile h.dataAt_le hown ?_
  have hcase : isDescribedAt archive p.position = true := hdescribed
  simp only [entrySizes, hcase, if_true, hd, hsizes, bind, Except.bind, pure, Except.pure]

/-- The length of a descriptor is right exactly if its width and its signature are. -/
lemma StandsIn.descriptorSizeAt_eq_iff (h : p.StandsIn archive)
    (hdescribed : p.isDescribed archive = true) (wide : Bool) :
    descriptorSizeAt archive (p.dataStop archive) wide = p.descriptorSize archive ↔
      p.wide = wide ∧
        (p.signed = false → numberAt archive (p.dataStop archive) 4 ≠ descriptorSignature) := by
  have hinside := h.inside
  have hsignature := h.signature hdescribed
  rw [stop] at hinside
  rw [descriptorSize, if_pos hdescribed] at hinside ⊢
  have hroom : p.dataStop archive + 4 ≤ archive.length := by omega
  rw [descriptorSizeAt]
  cases hsigned : p.signed with
  | true => cases hw : p.wide <;> cases wide <;> simp [hroom, hsignature hsigned]
  | false =>
    by_cases hmark : numberAt archive (p.dataStop archive) 4 = descriptorSignature <;>
      cases hw : p.wide <;> cases wide <;> simp [hroom, hmark]

/-- A piece whose stored size is told and whose descriptor is clear is read as it has been written.
-/
lemma StandsIn.isRead_of_described (h : p.StandsIn archive)
    (hdescribed : p.isDescribed archive = true) (hclear : p.IsClear archive)
    (hentry : Entry.ofArchive archive directory p.position = .ok (entryAt archive p.position
      ⟨p.stored, decide (IsSaturatedAt archive p.position) || isWideSize p.stored⟩)) :
    p.IsRead archive directory := by
  have hwidth : (decide (IsSaturatedAt archive p.position) || isWideSize p.stored) = p.wide := by
    rw [Bool.eq_iff_iff, Bool.or_eq_true, decide_eq_true_iff, hclear.width]
  rw [hwidth] at hentry
  refine ⟨hentry, ?_⟩
  rw [Entry.descriptorSize, entry, hasDescriptor_entryAt, if_pos hdescribed]
  exact (h.descriptorSizeAt_eq_iff hdescribed p.wide).mpr ⟨rfl, hclear.unsigned⟩

/-- Behind a piece whose stored size is told the reader goes on at its end exactly if the
descriptor is clear. -/
lemma StandsIn.stop_eq_iff_isClear (h : p.StandsIn archive)
    (hdescribed : p.isDescribed archive = true) (e : Entry) (he : e = entryAt archive p.position
      ⟨p.stored, decide (IsSaturatedAt archive p.position) || isWideSize p.stored⟩) :
    e.dataOffset + e.storedSize + e.descriptorSize archive = p.stop archive ↔
      p.IsClear archive := by
  have hdataStop : e.dataOffset + e.storedSize = p.dataStop archive := by rw [he]; rfl
  have hwide : e.wide = (decide (IsSaturatedAt archive p.position) || isWideSize p.stored) := by
    rw [he]
    rfl
  have hcase : e.hasDescriptor = true := by rw [he]; exact hdescribed
  rw [Entry.descriptorSize, if_pos hcase, hdataStop, hwide, stop, Nat.add_left_cancel_iff,
    h.descriptorSizeAt_eq_iff hdescribed, Bool.eq_iff_iff, Bool.or_eq_true, decide_eq_true_iff]
  exact ⟨fun h => ⟨h.1, h.2⟩, fun hclear => ⟨hclear.width, hclear.unsigned⟩⟩

end Piece

end FleetAgent.Archive
