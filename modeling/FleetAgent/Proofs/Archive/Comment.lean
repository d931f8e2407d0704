/-
# The comment behind the end record

An archive may end with a comment, whose length its end record tells.  The reader does not look at
that length: it takes the last place of the tail where an end record begins.  This is the archive's
own record exactly if no other one begins behind its first byte, in its last numbers or in the
comment (`lastEnd?_commented_iff`).

The tail has room for an end record with the longest comment.  Where the record leads to a wide one
the locator has to be in the tail as well, in front of the record, and it is pushed out of it by a
comment that leaves less than 20 bytes (`directory_of_pushed`).

If the record is found, and its locator, then the directory is the one that is read without the
comment (`directory_commented`).
-/
import FleetAgent.Proofs.Archive.Beginning

namespace FleetAgent.Archive

/-- The end record of a directory is the one that is found behind any front, together with the
locator in front of it. -/
structure IsSeen (count size offset : Nat) (comment : List UInt8) : Prop where
  last : ∀ j, 0 < j → ¬ EndsAt (endRecord count size offset comment) j
  room : offset = saturated ∨ size = saturated → comment.length + 20 ≤ maxComment

/-- A directory stands in a front, at the place that the numbers of an end record tell or, where one
of them is saturated, at the one in the wide end record to which the locator at the end of the
front leads. -/
inductive IsPlaced (front : List UInt8) (size offset start length : Nat) : Prop where
  | narrow (hoffset : offset ≠ saturated) (hsize : size ≠ saturated) (hstart : offset = start)
      (hlength : size = length)
  | wide (place : Nat) (hsaturated : offset = saturated ∨ size = saturated)
      (hroom : 20 ≤ front.length)
      (hlocator : numberAt front (front.length - 20) 4 = locatorSignature)
      (hplace : numberAt front (front.length - 20 + 8) 8 = place)
      (hinside : place + 56 ≤ front.length)
      (hrecord : numberAt front place 4 = wideEndSignature)
      (hstart : numberAt front (place + 48) 8 = start)
      (hlength : numberAt front (place + 40) 8 = length)

/-! ## The tail -/

/-- The bytes in front of an end record with a comment of some length that are in the tail. -/
def shownOf (front : List UInt8) (comment : Nat) : List UInt8 :=
  front.drop (front.length - (maxComment - comment))

variable {front comment shown record : List UInt8} {count size offset start length i : Nat}

lemma length_shownOf (front : List UInt8) (comment : Nat) :
    (shownOf front comment).length = min front.length (maxComment - comment) := by
  rw [shownOf, List.length_drop]
  omega

/-- The tail is the end record with the bytes in front of it for which there is room. -/
lemma tailOf_append (front : List UInt8) (count size offset : Nat)
    (hcomment : comment.length ≤ maxComment) :
    tailOf (front ++ endRecord count size offset comment)
      = shownOf front comment.length ++ endRecord count size offset comment := by
  have hrecord := length_endRecord count size offset comment
  have hshown : front.length + (endLength + comment.length)
      - min (front.length + (endLength + comment.length)) (endLength + maxComment)
        = front.length - (maxComment - comment.length) := by omega
  rw [tailOf, bytesAt, List.length_append, hrecord, hshown,
    List.drop_append_of_le_length (Nat.sub_le _ _), ← shownOf]
  refine List.take_of_length_le ?_
  rw [List.length_append, length_shownOf, hrecord]
  omega

lemma endsAt_append_iff : EndsAt (shown ++ record) (shown.length + i) ↔ EndsAt record i := by
  rw [EndsAt, EndsAt, numberAt_append_right, List.length_append]
  exact and_congr_left fun _ => by omega

/-- What stands in front of a record does not matter for whether it is the last one. -/
lemma isLastEnd_append_iff : IsLastEnd (shown ++ record) shown.length ↔ IsLastEnd record 0 := by
  refine and_congr (endsAt_append_iff (i := 0)) ⟨fun h j hj hends => ?_, fun h j hj hends => ?_⟩
  · exact h (shown.length + j) (by omega) (endsAt_append_iff.mpr hends)
  · obtain ⟨k, rfl⟩ := Nat.exists_eq_add_of_le (Nat.le_of_lt hj)
    exact h k (by omega) (endsAt_append_iff.mp hends)

lemma endsAt_endRecord (count size offset : Nat) (comment : List UInt8) :
    EndsAt (endRecord count size offset comment) 0 :=
  beginsEnd_iff.mp (beginsEnd_endRecord count size offset comment)

lemma isLastEnd_tailOf_iff (front : List UInt8) (count size offset : Nat)
    (hcomment : comment.length ≤ maxComment) :
    IsLastEnd (tailOf (front ++ endRecord count size offset comment))
        (shownOf front comment.length).length ↔
      ∀ j, 0 < j → ¬ EndsAt (endRecord count size offset comment) j := by
  rw [tailOf_append front count size offset hcomment, isLastEnd_append_iff]
  exact and_iff_right (endsAt_endRecord count size offset comment)

/-- **The own end record of an archive is found exactly if no other one begins in it.** -/
theorem lastEnd?_commented_iff (front : List UInt8) (count size offset : Nat)
    (hcomment : comment.length ≤ maxComment) :
    lastEnd? (tailOf (front ++ endRecord count size offset comment))
        = some ((tailOf (front ++ endRecord count size offset comment)).length
          - (endRecord count size offset comment).length) ↔
      ∀ j, 0 < j → ¬ EndsAt (endRecord count size offset comment) j := by
  rw [lastEnd?_eq_some_iff, ← isLastEnd_tailOf_iff front count size offset hcomment,
    tailOf_append front count size offset hcomment, List.length_append, Nat.add_sub_cancel]

/-- Without a comment there is no room for another end record. -/
lemma isSeen_nil (count size offset : Nat) : IsSeen count size offset [] where
  last j hj hends := by
    have hroom := hends.1
    rw [length_endRecord, List.length_nil] at hroom
    omega
  room _ := by decide

/-! ## The numbers of the end record -/

lemma size_endRecord (hsize : size < 256 ^ 4) :
    numberAt (endRecord count size offset comment) 12 4 = size :=
  numberAt_of_fields (standsAt_self (endRecord count size offset comment)) 4 rfl hsize

lemma offset_endRecord (hoffset : offset < 256 ^ 4) :
    numberAt (endRecord count size offset comment) 16 4 = offset :=
  numberAt_of_fields (standsAt_self (endRecord count size offset comment)) 5 rfl hoffset

/-! ## The place of the directory -/

/-- The locator in front of a record that is seen is the one at the end of the front. -/
lemma numberAt_shownOf {room width k : Nat} (hroom : comment.length + room ≤ maxComment)
    (hfront : room ≤ front.length) (hk : k + width ≤ room) (record : List UInt8) :
    numberAt (shownOf front comment.length ++ record)
        ((shownOf front comment.length).length - room + k) width
      = numberAt front (front.length - room + k) width := by
  have hlength := length_shownOf front comment.length
  rw [numberAt_append record (by omega), numberAt, numberAt, bytesAt, bytesAt, shownOf,
    List.drop_drop, List.length_drop]
  congr 3
  omega

/-- An end record that is seen tells where the directory stands. -/
lemma directoryAt_of_isSeen (hsize : size < 256 ^ 4) (hoffset : offset < 256 ^ 4)
    (hcomment : comment.length ≤ maxComment) (hseen : IsSeen count size offset comment)
    (hplaced : IsPlaced front size offset start length) :
    DirectoryAt (front ++ endRecord count size offset comment) start length := by
  have htail := tailOf_append front count size offset hcomment
  have hlast : IsLastEnd (tailOf (front ++ endRecord count size offset comment))
      (shownOf front comment.length).length :=
    (isLastEnd_tailOf_iff front count size offset hcomment).mpr hseen.last
  have hsizeAt : numberAt (tailOf (front ++ endRecord count size offset comment))
      ((shownOf front comment.length).length + 12) 4 = size := by
    rw [htail, numberAt_append_right, size_endRecord hsize]
  have hoffsetAt : numberAt (tailOf (front ++ endRecord count size offset comment))
      ((shownOf front comment.length).length + 16) 4 = offset := by
    rw [htail, numberAt_append_right, offset_endRecord hoffset]
  cases hplaced with
  | narrow hnarrow hnarrow' hstart hlength =>
    exact .narrow _ hlast (hsizeAt.trans hlength) (hoffsetAt.trans hstart)
      ⟨hstart ▸ hnarrow, hlength ▸ hnarrow'⟩
  | wide place hsaturated hroom hlocator hplace hinside hrecord hstart hlength =>
    have hleft := hseen.room hsaturated
    have hshown := length_shownOf front comment.length
    refine .wide _ place hlast ?_ (by omega) ?_ ?_ ?_ ?_ ?_ ?_
    · rwa [hoffsetAt, hsizeAt]
    · rw [htail]
      exact (numberAt_shownOf hleft hroom (k := 0) (by decide) _).trans hlocator
    · rw [htail]
      exact (numberAt_shownOf hleft hroom (k := 8) (by decide) _).trans hplace
    · rw [List.length_append]
      exact Nat.le_add_right_of_le hinside
    · rw [numberAt_append _ (by omega), hrecord]
    · rw [numberAt_append _ (by omega), hlength]
    · rw [numberAt_append _ (by omega), hstart]

/-- An end record whose comment leaves no room for its locator leads nowhere. -/
lemma directory_of_pushed (hsize : size < 256 ^ 4) (hoffset : offset < 256 ^ 4)
    (hcomment : comment.length ≤ maxComment)
    (hfile : (front ++ endRecord count size offset comment).length < Numeral.signed64End)
    (hlast : ∀ j, 0 < j → ¬ EndsAt (endRecord count size offset comment) j)
    (hsaturated : offset = saturated ∨ size = saturated)
    (hpushed : maxComment < comment.length + 20) :
    Directory.ofArchive (front ++ endRecord count size offset comment)
      = .error (.corrupt .noLocator) := by
  have hshown : (shownOf front comment.length).length < 20 := by
    rw [length_shownOf]
    omega
  have hextent : directoryExtent (front ++ endRecord count size offset comment)
      = .error (.corrupt .noLocator) := by
    rw [directoryExtent_of_isLastEnd hfile
      ((isLastEnd_tailOf_iff front count size offset hcomment).mpr hlast),
      tailOf_append front count size offset hcomment, numberAt_append_right, numberAt_append_right,
      size_endRecord hsize, offset_endRecord hoffset, if_neg (by tauto), wideExtent, if_pos hshown]
  rw [Directory.ofArchive, hextent]
  rfl

/-- The directory that stands in a front is read from the front. -/
lemma directory_of_isSeen (hsize : size < 256 ^ 4) (hoffset : offset < 256 ^ 4)
    (hcomment : comment.length ≤ maxComment)
    (hfile : (front ++ endRecord count size offset comment).length < Numeral.signed64End)
    (hseen : IsSeen count size offset comment) (hplaced : IsPlaced front size offset start length)
    (hinside : start + length ≤ front.length) :
    Directory.ofArchive (front ++ endRecord count size offset comment)
      = directoryFrom (bytesAt front start length) (length + 1) 0 [] := by
  have hextent := directoryExtent_of_directoryAt hfile
    (directoryAt_of_isSeen hsize hoffset hcomment hseen hplaced)
  have hroom : start + length ≤ (front ++ endRecord count size offset comment).length := by
    rw [List.length_append]
    exact Nat.le_add_right_of_le hinside
  have hread : read (front ++ endRecord count size offset comment) start length
      (front ++ endRecord count size offset comment).length = .ok (bytesAt front start length) := by
    rw [read_eq_bytesAt hroom (by omega) (by omega), bytesAt_append _ hinside]
  simp only [Directory.ofArchive, hextent, Nat.not_lt.mpr hroom, if_false, hread,
    length_bytesAt hinside, bind, Except.bind]

/-- **A comment behind which the end record is seen leaves the directory as it is.** -/
theorem directory_commented (hsize : size < 256 ^ 4) (hoffset : offset < 256 ^ 4)
    (hcomment : comment.length ≤ maxComment)
    (hfile : (front ++ endRecord count size offset comment).length < Numeral.signed64End)
    (hseen : IsSeen count size offset comment) (hplaced : IsPlaced front size offset start length)
    (hinside : start + length ≤ front.length) :
    Directory.ofArchive (front ++ endRecord count size offset comment)
      = Directory.ofArchive (front ++ endRecord count size offset []) := by
  have hshort : (front ++ endRecord count size offset []).length < Numeral.signed64End := by
    rw [List.length_append, length_endRecord] at hfile ⊢
    simp only [List.length_nil]
    omega
  rw [directory_of_isSeen hsize hoffset hcomment hfile hseen hplaced hinside,
    directory_of_isSeen hsize hoffset (Nat.zero_le _) hshort (isSeen_nil count size offset) hplaced
      hinside]

end FleetAgent.Archive
