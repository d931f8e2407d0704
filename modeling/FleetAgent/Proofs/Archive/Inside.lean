/-
# Reads that stay inside

A checked read succeeds exactly where its range lies inside the buffer, and it then gives the bytes
or the number that stand there.  So a check is discharged by rewriting with the bytes at a position
(`read_eq_bytesAt`, `field_eq_numberAt`), once the bounds are known from an earlier check.

Numbers of some bytes are bounded by their width (`numberAt_lt`), which is what keeps the lengths
and the positions of a reader small.
-/
import FleetAgent.Proofs.Archive.Bytes
import FleetAgent.Proofs.Archive.Layout

namespace FleetAgent.Archive

/-! ## Numbers -/

lemma number_lt (bs : List UInt8) : number bs < 256 ^ bs.length := by
  induction bs with
  | nil => exact Nat.one_pos
  | cons b bs ih =>
    have hlow : b.toNat < 256 := b.toNat_lt
    rw [number, List.length_cons, Nat.pow_succ']
    omega

variable {archive bs part : List UInt8} {start n limit width pos i : Nat}

/-- A number is less than the power that its width allows, wherever it stands. -/
lemma numberAt_lt (bs : List UInt8) (pos width : Nat) : numberAt bs pos width < 256 ^ width := by
  refine Nat.lt_of_lt_of_le (number_lt _) (Nat.pow_le_pow_right (by decide) ?_)
  rw [bytesAt, List.length_take]
  exact Nat.min_le_left _ _

lemma numberAt_bytesAt (bs : List UInt8) (pos : Nat) (h : i + width ≤ n) :
    numberAt (bytesAt bs pos n) i width = numberAt bs (pos + i) width := by
  rw [numberAt, bytesAt_bytesAt bs pos h, numberAt]

/-! ## Bytes -/

lemma bytesAt_of_standsAt (h : StandsAt bs pos part) : bytesAt bs pos part.length = part :=
  (slice?_eq_some (slice?_eq_of_standsAt h)).1.symm

/-- The number at an index of a row of numbers stands where the widths before it end, cut off at its
width. -/
lemma numberAt_mod_of_fields {rest : List UInt8} {fs : List (Nat × Nat)}
    (h : StandsAt bs pos (fields fs ++ rest)) (k : Nat) (hk : fs[k]? = some (width, n)) :
    numberAt bs (pos + ((fs.take k).map Prod.fst).sum) width = n % 256 ^ width :=
  (field_eq_ok (field_of_fields h k hk)).symm

lemma numberAt_of_fields {rest : List UInt8} {fs : List (Nat × Nat)}
    (h : StandsAt bs pos (fields fs ++ rest)) (k : Nat) (hk : fs[k]? = some (width, n))
    (hn : n < 256 ^ width) : numberAt bs (pos + ((fs.take k).map Prod.fst).sum) width = n :=
  (numberAt_mod_of_fields h k hk).trans (Nat.mod_eq_of_lt hn)

lemma length_bytesAt (h : pos + n ≤ bs.length) : (bytesAt bs pos n).length = n := by
  rw [bytesAt, List.length_take, List.length_drop]
  omega

lemma length_bytesAt_le (bs : List UInt8) (pos n : Nat) : (bytesAt bs pos n).length ≤ n := by
  rw [bytesAt, List.length_take]
  exact Nat.min_le_left _ _

/-- Bytes that are all there end inside the buffer, unless there are none. -/
lemma le_of_length_bytesAt (h : (bytesAt bs pos n).length = n) (hn : 0 < n) :
    pos + n ≤ bs.length := by
  rw [bytesAt, List.length_take, List.length_drop] at h
  omega

/-! ## Checked reads -/

/-- Sums a little behind the end of a file stay far below 64 bits. -/
lemma add_eq_ok_of_near {a b size : Nat} (h : a + b ≤ size + 0x100000)
    (hsize : size < Numeral.signed64End) : add a b = .ok (a + b) := by
  refine add_eq_ok (Nat.lt_of_le_of_lt h (Nat.lt_of_lt_of_le (Nat.add_lt_add_right hsize _) ?_))
  decide

lemma slice?_eq_bytesAt (h : start + n ≤ bs.length) :
    slice? bs start n = some (bytesAt bs start n) := by
  have hlength : ((bs.drop start).take n).length = n := length_bytesAt h
  rw [slice?, hlength, if_pos rfl, bytesAt]

lemma field_eq_numberAt (h : start + width ≤ bs.length) :
    field bs start width = .ok (numberAt bs start width) := by
  rw [field, slice?_eq_bytesAt h, numberAt]

lemma read_eq_bytesAt (h : start + n ≤ bs.length) (hlimit : n ≤ limit)
    (hstart : start < Numeral.signed64End) : read bs start n limit = .ok (bytesAt bs start n) := by
  rw [read, if_neg (by omega), if_neg (by omega), slice?_eq_bytesAt h]

lemma read32_eq_numberAt (h : start + 4 ≤ bs.length) (hstart : start < Numeral.signed64End) :
    read32 bs start = .ok (numberAt bs start 4) := by
  have hread : read bs start 4 4 = .ok (bytesAt bs start 4) :=
    read_eq_bytesAt h (Nat.le_refl 4) hstart
  have hfield : field (bytesAt bs start 4) 0 4 = .ok (numberAt bs start 4) := by
    rw [field_eq_numberAt (Nat.le_of_eq (length_bytesAt h).symm),
      numberAt_bytesAt bs start (Nat.le_refl 4), Nat.add_zero]
  rw [read32, hread]
  exact hfield

/-! ## Behind an entry -/

/-- A descriptor takes up at most 24 bytes. -/
lemma descriptorSizeAt_le (archive : List UInt8) (pos : Nat) (wide : Bool) :
    descriptorSizeAt archive pos wide ≤ 24 := by
  rw [descriptorSizeAt]
  split_ifs <;> decide

lemma descriptorSize_le (e : Entry) (archive : List UInt8) : e.descriptorSize archive ≤ 24 := by
  rw [Entry.descriptorSize]
  split_ifs
  · exact descriptorSizeAt_le _ _ _
  · exact Nat.zero_le _

/-- The length of a descriptor is read wherever data can end. -/
lemma descriptorLength_eq (hfile : archive.length < Numeral.signed64End)
    (hpos : pos ≤ archive.length) (wide : Bool) :
    descriptorLength archive pos wide = .ok (descriptorSizeAt archive pos wide) := by
  have hadd : add pos 4 = .ok (pos + 4) := add_eq_ok_of_near (by omega) hfile
  rw [descriptorLength, descriptorSizeAt, hadd]
  by_cases hroom : pos + 4 ≤ archive.length
  · by_cases hsignature : numberAt archive pos 4 = descriptorSignature <;>
      simp [hroom, read32_eq_numberAt hroom (by omega), hsignature, bind, Except.bind, pure,
        Except.pure]
  · simp [hroom, bind, Except.bind, pure, Except.pure]

/-- The position behind an entry whose data ends inside the archive. -/
lemma stop_eq {e : Entry} (hfile : archive.length < Numeral.signed64End)
    (hinside : e.dataOffset + e.storedSize ≤ archive.length) :
    e.stop archive (e.dataOffset + e.storedSize)
      = .ok (e.dataOffset + e.storedSize + e.descriptorSize archive) := by
  have hle := descriptorSize_le e archive
  rw [Entry.stop]
  rw [Entry.descriptorSize] at hle ⊢
  split_ifs at hle ⊢
  · rw [descriptorLength_eq hfile hinside]
    exact add_eq_ok_of_near (by omega) hfile
  · rfl

end FleetAgent.Archive
