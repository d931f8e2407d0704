/-
# What is read in the front of an archive

A read whose range lies inside the front of an archive gives the same bytes whatever stands behind
(`read_append`), and so does every number, name and block of extra fields.  An entry whose header
lies in the front is therefore read from the front alone, once the sizes that the directory tells
of it are given (`ofArchive_append`); an entry without a descriptor does not even ask the directory
(`ofArchive_of_tells`).

The same holds of what has been written: a piece that stands in the front stands in the whole
archive, at the same place and with the same end (`Piece.StandsIn.append`).
-/
import FleetAgent.Proofs.Archive.Faultless
import FleetAgent.Proofs.Archive.Pieces

namespace FleetAgent.Archive

variable {front : List UInt8} (tail : List UInt8) {pos start n limit width : Nat}

/-! ## Bytes and numbers -/

lemma bytesAt_append (h : pos + n ≤ front.length) :
    bytesAt (front ++ tail) pos n = bytesAt front pos n := by
  rw [bytesAt, bytesAt, List.drop_append_of_le_length (Nat.le_of_add_right_le h),
    List.take_append_of_le_length (by rw [List.length_drop]; omega)]

lemma numberAt_append (h : pos + width ≤ front.length) :
    numberAt (front ++ tail) pos width = numberAt front pos width := by
  rw [numberAt, numberAt, bytesAt_append tail h]

/-- Behind the front the numbers are those of the tail. -/
lemma numberAt_append_right (front tail : List UInt8) (i width : Nat) :
    numberAt (front ++ tail) (front.length + i) width = numberAt tail i width := by
  rw [numberAt, numberAt, bytesAt, bytesAt, List.drop_append, List.drop_eq_nil_of_le (by omega),
    List.nil_append, Nat.add_sub_cancel_left]

lemma read_append (h : start + n ≤ front.length) :
    read (front ++ tail) start n limit = read front start n limit := by
  have hslice : slice? (front ++ tail) start n = slice? front start n := by
    rw [slice?_eq_bytesAt h, slice?_eq_bytesAt (by rw [List.length_append]; omega),
      bytesAt_append tail h]
  rw [read, read, hslice]

/-! ## Headers -/

/-- A number that is read of a header is the number at its place in the archive. -/
lemma eq_numberAt_of_header {archive header : List UInt8} {i k : Nat}
    (hread : read archive pos headerLength headerLength = .ok header)
    (hfield : field header i width = .ok k) (hi : i + width ≤ headerLength) :
    k = numberAt archive (pos + i) width := by
  rw [field_eq_ok hfield, (read_eq_ok hread).1, numberAt_bytesAt _ _ hi]

section

variable (h : pos + headerLength ≤ front.length)

include h

/-- The numbers of a header are told by the front. -/
lemma headerNumber_append {i : Nat} (hi : i + width ≤ headerLength) :
    numberAt (front ++ tail) (pos + i) width = numberAt front (pos + i) width :=
  numberAt_append tail (by omega)

lemma dataAt_append : dataAt (front ++ tail) pos = dataAt front pos := by
  rw [dataAt, dataAt, headerNumber_append tail h (by decide),
    headerNumber_append tail h (by decide)]

lemma isDescribedAt_append : isDescribedAt (front ++ tail) pos = isDescribedAt front pos := by
  rw [isDescribedAt, isDescribedAt, headerNumber_append tail h (by decide)]

lemma isSaturatedAt_append : IsSaturatedAt (front ++ tail) pos ↔ IsSaturatedAt front pos := by
  rw [IsSaturatedAt, IsSaturatedAt, headerNumber_append tail h (by decide),
    headerNumber_append tail h (by decide)]

end

section

variable (h : dataAt front pos ≤ front.length)

include h

lemma headerLength_le_of_dataAt_le : pos + headerLength ≤ front.length :=
  Nat.le_trans (Nat.le_add_right _ _) h

lemma nameAt_append : nameAt (front ++ tail) pos = nameAt front pos := by
  have hheader := headerLength_le_of_dataAt_le h
  rw [dataAt] at h
  rw [nameAt, nameAt, headerNumber_append tail hheader (by decide), bytesAt_append tail (by omega)]

lemma titleAt_append : titleAt (front ++ tail) pos = titleAt front pos := by
  rw [titleAt, titleAt, nameAt_append tail h]

lemma extraAt_append : extraAt (front ++ tail) pos = extraAt front pos := by
  have hheader := headerLength_le_of_dataAt_le h
  rw [dataAt] at h
  rw [extraAt, extraAt, headerNumber_append tail hheader (by decide),
    headerNumber_append tail hheader (by decide), bytesAt_append tail (by omega)]

lemma entryAt_append (sizes : Sizes) :
    entryAt (front ++ tail) pos sizes = entryAt front pos sizes := by
  have hheader := headerLength_le_of_dataAt_le h
  rw [entryAt, entryAt, titleAt_append tail h, dataAt_append tail hheader,
    headerNumber_append tail hheader (by decide), headerNumber_append tail hheader (by decide)]

/-- **An entry is read from the front in which its header lies.** -/
theorem ofArchive_append (directory : Except Failure Directory) :
    Entry.ofArchive (front ++ tail) directory pos = Entry.ofArchive front directory pos := by
  have hheader := headerLength_le_of_dataAt_le h
  rw [dataAt] at h
  rw [Entry.ofArchive, Entry.ofArchive, read_append tail hheader]
  refine bind_congr_ok fun header hread => ?_
  iterate 4 refine bind_congr_ok fun _ _ => ?_
  refine bind_congr_ok fun nameLength hname => bind_congr_ok fun extraLength hextra =>
    bind_congr_ok fun nameStart hstart => ?_
  -- the lengths are those in the front, so the block of the name lies in the front as well
  have hinside : nameStart + (nameLength + extraLength) ≤ front.length := by
    rw [(add_eq_ok_iff.mp hstart).2, eq_numberAt_of_header hread hname (by decide),
      eq_numberAt_of_header hread hextra (by decide)]
    exact h
  rw [read_append tail hinside]

end

section

variable {archive : List UInt8} {directory : Except Failure Directory} {e : Entry}

/-- An entry that is read has its header inside the archive. -/
lemma dataAt_le_of_ofArchive (h : Entry.ofArchive archive directory pos = .ok e) :
    dataAt archive pos ≤ archive.length := by
  obtain ⟨header, hread, h⟩ := bind_eq_ok.mp h
  iterate 4 obtain ⟨_, -, h⟩ := bind_eq_ok.mp h
  obtain ⟨nameLength, hname, h⟩ := bind_eq_ok.mp h
  obtain ⟨extraLength, hextra, h⟩ := bind_eq_ok.mp h
  obtain ⟨nameStart, hstart, h⟩ := bind_eq_ok.mp h
  obtain ⟨block, hblock, -⟩ := bind_eq_ok.mp h
  obtain ⟨-, rfl⟩ := add_eq_ok_iff.mp hstart
  obtain rfl := eq_numberAt_of_header hread hname (by decide)
  obtain rfl := eq_numberAt_of_header hread hextra (by decide)
  rw [dataAt]
  rcases Nat.eq_zero_or_pos (numberAt archive (pos + 26) 2 + numberAt archive (pos + 28) 2)
    with hzero | hpos
  · rw [hzero, Nat.add_zero]
    exact le_of_length_bytesAt (read_eq_ok hread).2 (by decide)
  · exact le_of_length_bytesAt (read_eq_ok hblock).2 hpos

lemma hasDescriptor_of_ofArchive (h : Entry.ofArchive archive directory pos = .ok e) :
    e.hasDescriptor = isDescribedAt archive pos := by
  rw [Entry.hasDescriptor, (standsAt_of_ofArchive h).flags_eq, isDescribedAt]

/-- Of two parts of a computation the second one may be replaced by one that succeeds as well. -/
lemma bind_eq_ok_mono {ε α β : Type} {x : Except ε α} {f g : α → Except ε β} {b : β}
    (h : ∀ a, x = .ok a → f a = .ok b → g a = .ok b) (hx : (x >>= f) = .ok b) :
    (x >>= g) = .ok b := by
  obtain ⟨a, ha, hb⟩ := bind_eq_ok.mp hx
  exact bind_eq_ok.mpr ⟨a, ha, h a ha hb⟩

/-- An entry is read the same with another directory, if that tells the same of its title.  Where no
descriptor follows the data, the directory is not looked at. -/
lemma ofArchive_of_tells {other : Except Failure Directory}
    (h : Entry.ofArchive archive directory pos = .ok e)
    (htells : isDescribedAt archive pos = true → ∀ d sizes, directory = .ok d →
      d.sizes? (titleAt archive pos) = some sizes →
        ∃ d', other = .ok d' ∧ d'.sizes? (titleAt archive pos) = some sizes) :
    Entry.ofArchive archive other pos = .ok e := by
  rw [Entry.ofArchive] at h ⊢
  refine bind_eq_ok_mono (fun header hread => bind_eq_ok_mono fun flags hflags => ?_) h
  iterate 3 refine bind_eq_ok_mono fun _ _ => ?_
  refine bind_eq_ok_mono fun nameLength hname => bind_eq_ok_mono fun extraLength _ =>
    bind_eq_ok_mono fun nameStart hstart => bind_eq_ok_mono fun block hblock =>
      bind_eq_ok_mono fun own _ => ?_
  have htitle : Text.Utf8.decodeLossy (block.take nameLength) = titleAt archive pos := by
    rw [(read_eq_ok hblock).1, take_bytesAt, (add_eq_ok_iff.mp hstart).2, titleAt, nameAt,
      eq_numberAt_of_header hread hname (by decide)]
  have hflag : (flags / 8 % 2 == 1) = isDescribedAt archive pos := by
    rw [eq_numberAt_of_header hread hflags (by decide), isDescribedAt]
  rw [htitle, hflag]
  intro hsizes
  obtain ⟨sizes, hfound, hrest⟩ := bind_eq_ok.mp hsizes
  refine bind_eq_ok.mpr ⟨sizes, ?_, hrest⟩
  obtain ⟨hplain, rfl⟩ | ⟨hdescribed, d, listed, hd, hlisted, rfl⟩ := entrySizes_eq_ok hfound
  · rw [entrySizes, hplain]
    rfl
  · obtain ⟨d', rfl, hlisted'⟩ := htells hdescribed d listed hd hlisted
    simp only [entrySizes, hdescribed, if_true, hlisted', bind, Except.bind, pure, Except.pure]

end

lemma descriptorSizeAt_append (h : pos + 4 ≤ front.length) (wide : Bool) :
    descriptorSizeAt (front ++ tail) pos wide = descriptorSizeAt front pos wide := by
  have hroom : pos + 4 ≤ (front ++ tail).length := by
    rw [List.length_append]
    exact Nat.le_add_right_of_le h
  simp only [descriptorSizeAt, h, hroom, true_and, numberAt_append tail h]

lemma four_le_descriptorSizeAt (archive : List UInt8) (pos : Nat) (wide : Bool) :
    4 ≤ descriptorSizeAt archive pos wide := by
  rw [descriptorSizeAt]
  omega

/-- A descriptor is as long as the front tells, or the front ends before it does. -/
lemma descriptorSize_append_or (front tail : List UInt8) (e : Entry) :
    e.descriptorSize (front ++ tail) = e.descriptorSize front ∨
      front.length < e.dataOffset + e.storedSize + e.descriptorSize front ∧
        front.length < e.dataOffset + e.storedSize + e.descriptorSize (front ++ tail) := by
  rw [Entry.descriptorSize, Entry.descriptorSize]
  cases e.hasDescriptor with
  | false => exact .inl rfl
  | true =>
    by_cases hroom : e.dataOffset + e.storedSize + 4 ≤ front.length
    · exact .inl (descriptorSizeAt_append tail hroom e.wide)
    · have hle := four_le_descriptorSizeAt front (e.dataOffset + e.storedSize) e.wide
      have hle' := four_le_descriptorSizeAt (front ++ tail) (e.dataOffset + e.storedSize) e.wide
      rw [if_pos rfl, if_pos rfl]
      exact .inr ⟨by omega, by omega⟩

/-! ## Pieces -/

namespace Piece

variable {p : Piece} (h : p.StandsIn front)

include h

lemma StandsIn.isDescribed_append : p.isDescribed (front ++ tail) = p.isDescribed front :=
  isDescribedAt_append tail (headerLength_le_of_dataAt_le h.dataAt_le)

lemma StandsIn.dataStop_append : p.dataStop (front ++ tail) = p.dataStop front := by
  rw [dataStop, dataStop, dataAt_append tail (headerLength_le_of_dataAt_le h.dataAt_le)]

lemma StandsIn.descriptorSize_append :
    p.descriptorSize (front ++ tail) = p.descriptorSize front := by
  rw [descriptorSize, descriptorSize, h.isDescribed_append]

lemma StandsIn.stop_append : p.stop (front ++ tail) = p.stop front := by
  rw [stop, stop, h.dataStop_append, h.descriptorSize_append]

lemma StandsIn.entry_append : p.entry (front ++ tail) = p.entry front :=
  entryAt_append tail h.dataAt_le _

/-- A descriptor that begins in the front ends in it. -/
lemma StandsIn.descriptor_le (hdescribed : p.isDescribed front = true) :
    p.dataStop front + 4 ≤ front.length := by
  have hinside := h.inside
  rw [stop, descriptorSize, if_pos hdescribed] at hinside
  omega

/-- A piece that stands in the front stands in the whole archive. -/
lemma StandsIn.append : p.StandsIn (front ++ tail) := by
  have hdata := h.dataAt_le
  have hheader := headerLength_le_of_dataAt_le hdata
  have hsaturated := isSaturatedAt_append tail hheader
  constructor
  · rw [numberAt_append tail (by simp only [headerLength] at hheader; omega)]
    exact h.begins
  · rw [h.stop_append, List.length_append]
    exact Nat.le_add_right_of_le h.inside
  · rw [hsaturated, extraAt_append tail hdata, h.isDescribed_append]
    exact h.saturated
  · rw [hsaturated, h.isDescribed_append, headerNumber_append tail hheader (by decide)]
    exact h.narrow
  · rw [hsaturated, h.isDescribed_append]
    exact h.wide_iff
  · rw [h.isDescribed_append, h.dataStop_append]
    intro hdescribed hsigned
    rw [numberAt_append tail (h.descriptor_le hdescribed)]
    exact h.signature hdescribed hsigned

/-- Whether a piece is read as it has been written is seen from the front and the directory. -/
lemma StandsIn.isRead_append_iff (directory : Except Failure Directory) :
    p.IsRead (front ++ tail) directory ↔ p.IsRead front directory := by
  have hentry : Entry.ofArchive (front ++ tail) directory p.position
      = Entry.ofArchive front directory p.position := ofArchive_append tail h.dataAt_le directory
  have hsize : (p.entry front).descriptorSize (front ++ tail)
      = (p.entry front).descriptorSize front := by
    rw [Entry.descriptorSize, Entry.descriptorSize]
    cases hdescribed : (p.entry front).hasDescriptor with
    | false => rfl
    | true => exact descriptorSizeAt_append tail (h.descriptor_le hdescribed) _
  constructor
  · intro hread
    refine ⟨?_, ?_⟩
    · rw [← hentry, ← h.entry_append tail]
      exact hread.entry_eq
    · rw [← hsize, ← h.descriptorSize_append tail, ← h.entry_append tail]
      exact hread.descriptorSize_eq
  · intro hread
    refine ⟨?_, ?_⟩
    · rw [hentry, h.entry_append]
      exact hread.entry_eq
    · rw [h.entry_append, hsize, h.descriptorSize_append]
      exact hread.descriptorSize_eq

end Piece

end FleetAgent.Archive
