/-
# Packages with a comment

A package may end with a comment, and what is found in it should not depend on that.  The entries
stand in front of the end record, and so does the directory (`IsPacked`); both are read from there,
as long as the reader finds the way to the directory.  Without a descriptor in the package nobody
asks for the directory, and every comment leaves the outcome as it is.  With one, the end record has
to be seen behind the comment (`specOf_commented`).

A comment can hold what looks like an end record.  It is then taken for the archive's own one, and
the directory that it leads to for the directory of the archive (`not_specOf_commented`).
-/
import FleetAgent.Proofs.Archive.Comment
import FleetAgent.Proofs.Update.Locality
import FleetAgent.Proofs.Update.Members
import FleetAgent.Proofs.Update.Package

namespace FleetAgent.Update.Payload

open FleetAgent.Archive

/-- What stands in front of the end record of a package: entries one behind the other, something
else behind them, and the directory, at the place that the end record tells. -/
structure IsPacked (front : List UInt8) (ps : List Piece) (size offset : Nat) : Prop where
  size_lt : size < 256 ^ 4
  offset_lt : offset < 256 ^ 4
  entries : ps ≠ [] → ∃ stop, Laid front 0 ps stop ∧ stop + 4 ≤ front.length ∧
    ¬ BeginsAt front stop
  /-- Without entries there is nothing. -/
  empty : ps = [] → front = []
  placed : ∃ start length, IsPlaced front size offset start length ∧ start + length ≤ front.length

variable {front comment : List UInt8} {ps : List Piece} {count size offset : Nat}

lemma entryBegins_endRecord (count size offset : Nat) (comment : List UInt8) :
    entryBegins (endRecord count size offset comment) 0 = .ok false := by
  have hends := endsAt_endRecord count size offset comment
  have hroom : 0 + 4 ≤ (endRecord count size offset comment).length := by
    have := hends.1
    simp only [endLength] at this
    omega
  have hread : read32 (endRecord count size offset comment) 0 = .ok endSignature :=
    hends.2 ▸ read32_eq_numberAt hroom (by decide)
  have hother : endSignature ≠ entrySignature := by decide
  have hadd : add 0 4 = .ok 4 := rfl
  simp [entryBegins, hadd, Nat.not_lt.mpr hroom, hread, hother, bind, Except.bind, pure,
    Except.pure]

namespace IsPacked

/-- The pieces are laid in the whole package, and no entry begins behind them. -/
lemma laid (h : IsPacked front ps size offset)
    (hfile : (front ++ endRecord count size offset comment).length < Numeral.signed64End) :
    ∃ stop, Laid front 0 ps stop ∧
      entryBegins (front ++ endRecord count size offset comment) stop = .ok false := by
  rcases eq_or_ne ps [] with hps | hps
  · obtain rfl := h.empty hps
    subst hps
    exact ⟨0, .nil 0, entryBegins_endRecord count size offset comment⟩
  · obtain ⟨stop, hlaid, hroom, hother⟩ := h.entries hps
    have hle := hlaid.le_stop
    have hlength := List.length_pos_iff.mpr hps
    simp only [headerLength] at hle
    refine ⟨stop, hlaid, ?_⟩
    rw [entryBegins_append _ hroom]
    rw [List.length_append] at hfile
    exact entryBegins_of_not_beginsAt (by omega) (by omega) (by omega) hother

/-- The pieces of a package are all that is visited, if they are read as they have been written. -/
lemma find_eq (h : IsPacked front ps size offset)
    (hfile : (front ++ endRecord count size offset comment).length < Numeral.signed64End)
    (hread : ∀ p ∈ ps, p.IsRead front
      (Directory.ofArchive (front ++ endRecord count size offset comment))) :
    find (front ++ endRecord count size offset comment) = visits front ps ⟨none, none⟩ := by
  obtain ⟨stop, hlaid, hstop⟩ := h.laid hfile
  have hstands : ∀ p ∈ ps, p.StandsIn front := fun p hp => hlaid.standsIn hp
  have hle := hlaid.le_stop
  have hinside := hlaid.stop_le
  simp only [headerLength] at hle
  rw [← visits_append (endRecord count size offset comment) hstands]
  refine walk_laid hfile (hlaid.append _) (fun p hp => ?_) hstop _ _ ?_
  · exact ((hstands p hp).isRead_append_iff _ _).mpr (hread p hp)
  · rw [List.length_append, length_endRecord]
    omega

end IsPacked

/-- What is written from members is packed, if the place of the directory fits the end record. -/
lemma isPacked_members {ms : List Member} (hfits : ∀ m ∈ ms, m.Fits)
    (hsize : (recordsFrom 0 ms).length < saturated) (hoffset : (entriesOf ms).length < saturated) :
    IsPacked (entriesOf ms ++ recordsFrom 0 ms) (piecesFrom 0 ms) (recordsFrom 0 ms).length
      (entriesOf ms).length where
  size_lt := Nat.lt_trans hsize (by decide)
  offset_lt := Nat.lt_trans hoffset (by decide)
  entries hps := by
    cases ms with
    | nil => exact absurd rfl hps
    | cons m ms =>
      have hlaid := laid_piecesFrom
        (⟨[], recordsFrom 0 (m :: ms), rfl, rfl⟩ :
          StandsAt (entriesOf (m :: ms) ++ recordsFrom 0 (m :: ms)) 0 (entriesOf (m :: ms))) hfits
      rw [Nat.zero_add] at hlaid
      -- behind the entries there is the first record of the directory
      have hrecord : StandsAt (entriesOf (m :: ms) ++ recordsFrom 0 (m :: ms))
          (entriesOf (m :: ms)).length (m.record 0) := by
        refine ⟨entriesOf (m :: ms), recordsFrom (0 + m.bytes.length) ms, ?_, rfl⟩
        rw [recordsFrom, List.append_assoc]
      have hsignature : numberAt (entriesOf (m :: ms) ++ recordsFrom 0 (m :: ms))
          (entriesOf (m :: ms)).length 4 = directorySignature :=
        numberAt_of_fields hrecord 0 rfl (by decide)
      have hroom := hrecord.length_le
      rw [Member.length_record, recordLength] at hroom
      refine ⟨_, hlaid, by omega, fun hbegins => ?_⟩
      rw [BeginsAt, hsignature] at hbegins
      exact absurd hbegins.2 (by decide)
  empty hps := by
    cases ms with
    | nil => rfl
    | cons m ms => cases hps
  placed := ⟨_, _, .narrow (Nat.ne_of_lt hoffset) (Nat.ne_of_lt hsize) rfl rfl, by
    rw [List.length_append]⟩

/-! ## Outcomes -/

/-- If the end record is seen wherever an entry has a descriptor, the outcome is the one without the
comment. -/
lemma IsPacked.specOf_eq (path : String) (h : IsPacked front ps size offset)
    (hcomment : comment.length ≤ maxComment)
    (hfile : (front ++ endRecord count size offset comment).length < Numeral.signed64End)
    (hread : ∀ p ∈ ps, p.isDescribed front = true →
      p.IsRead front (Directory.ofArchive (front ++ endRecord count size offset [])))
    (hseen : (∃ p ∈ ps, p.isDescribed front = true) → IsSeen count size offset comment) :
    specOf path (front ++ endRecord count size offset comment)
      = specOf path (front ++ endRecord count size offset []) := by
  have hshort : (front ++ endRecord count size offset []).length < Numeral.signed64End := by
    rw [List.length_append, length_endRecord] at hfile ⊢
    simp only [List.length_nil]
    omega
  obtain ⟨stop, hlaid, -⟩ := h.laid hshort
  have hplain {p : Piece} (hp : p ∈ ps) (hcase : p.isDescribed front = false)
      (directory : Except Failure Directory) : p.IsRead front directory := by
    rw [List.length_append] at hfile
    exact (hlaid.standsIn hp).isRead_of_not_described (by omega) hcase
  have hfind : find (front ++ endRecord count size offset []) = visits front ps ⟨none, none⟩ := by
    refine h.find_eq hshort fun p hp => ?_
    cases hcase : p.isDescribed front with
    | false => exact hplain hp hcase _
    | true => exact hread p hp hcase
  have hfind' : find (front ++ endRecord count size offset comment)
      = visits front ps ⟨none, none⟩ := by
    refine h.find_eq hfile fun p hp => ?_
    cases hcase : p.isDescribed front with
    | false => exact hplain hp hcase _
    | true =>
      -- the directory is asked for, and it is the one without the comment
      obtain ⟨start, length, hplaced, hinside⟩ := h.placed
      rw [directory_commented h.size_lt h.offset_lt hcomment hfile (hseen ⟨p, hp, hcase⟩) hplaced
        hinside]
      exact hread p hp hcase
  rw [specOf, specOf, hfind, hfind']

/-- **A package that is written from members may have a comment**: the outcome is the one without
it, if the end record is seen wherever a member has a descriptor. -/
theorem specOf_archiveWithComment (path : String) {ms : List Member} (hfits : ∀ m ∈ ms, m.Fits)
    (hsize : (recordsFrom 0 ms).length < saturated) (hoffset : (entriesOf ms).length < saturated)
    (hlisted : ∀ m ∈ ms, m.isDescribed = true → Listed (Directory.ofArchive (archiveOf ms)) m)
    (hcomment : comment.length ≤ maxComment)
    (hseen : (∃ m ∈ ms, m.isDescribed = true) →
      IsSeen ms.length (recordsFrom 0 ms).length (entriesOf ms).length comment) :
    specOf path (archiveWithComment ms comment) = specOf path (archiveOf ms) := by
  have hentries : StandsAt (entriesOf ms ++ recordsFrom 0 ms) 0 (entriesOf ms) :=
    ⟨[], recordsFrom 0 ms, rfl, rfl⟩
  have hlength : (entriesOf ms ++ recordsFrom 0 ms).length < 2 * saturated := by
    rw [List.length_append]
    omega
  have hfile : (entriesOf ms ++ recordsFrom 0 ms
      ++ endRecord ms.length (recordsFrom 0 ms).length (entriesOf ms).length comment).length
        < Numeral.signed64End := by
    rw [List.length_append, length_endRecord]
    simp only [saturated] at hlength
    simp only [maxComment] at hcomment
    simp only [endLength, Numeral.signed64End]
    omega
  have hread {p : Piece} (hp : p ∈ piecesFrom 0 ms) := isRead_piecesFrom hentries hfits
    (Nat.lt_trans hlength (by decide)) hlisted hp
  refine (isPacked_members hfits hsize hoffset).specOf_eq path hcomment hfile
    (fun p hp _ => hread hp) ?_
  rintro ⟨p, hp, hdescribed⟩
  obtain ⟨m, hm, hpiece, hat⟩ := exists_member_of_mem hentries hp
  rw [Member.bytes, List.append_assoc] at hat
  refine hseen ⟨m, hm, ?_⟩
  rw [← Member.isDescribedAt_header hat.left]
  exact hdescribed

/-! ## Main result -/

/-- **When a comment leaves the outcome as it is.**  The end record of an archive is the one that is
found exactly if no other end record begins behind its first byte, in the record or in the comment.
If it leads to a wide end record, and the comment leaves no room for the locator in the tail, then
the directory cannot be read.

Let the entries of a package with a descriptor be read as they have been written, as long as the
package has no comment.  Every comment leaves the outcome as it is, the same place and the same
properties or the same error, if no entry has a descriptor, and otherwise if the end record is seen
together with its locator. -/
theorem specOf_commented (path : String) (h : IsPacked front ps size offset) (count : Nat)
    (hcomment : comment.length ≤ maxComment)
    (hfile : (front ++ endRecord count size offset comment).length < Numeral.signed64End)
    (hread : ∀ p ∈ ps, p.isDescribed front = true →
      p.IsRead front (Directory.ofArchive (front ++ endRecord count size offset []))) :
    (lastEnd? (tailOf (front ++ endRecord count size offset comment))
        = some ((tailOf (front ++ endRecord count size offset comment)).length
          - (endRecord count size offset comment).length) ↔
      ∀ j, 0 < j → ¬ EndsAt (endRecord count size offset comment) j) ∧
    ((∀ j, 0 < j → ¬ EndsAt (endRecord count size offset comment) j) →
      offset = saturated ∨ size = saturated → maxComment < comment.length + 20 →
      Directory.ofArchive (front ++ endRecord count size offset comment)
        = .error (.corrupt .noLocator)) ∧
    (((∃ p ∈ ps, p.isDescribed front = true) → IsSeen count size offset comment) →
      specOf path (front ++ endRecord count size offset comment)
        = specOf path (front ++ endRecord count size offset [])) := by
  refine ⟨lastEnd?_commented_iff front count size offset hcomment, ?_, ?_⟩
  · intro hlast hsaturated hpushed
    exact directory_of_pushed h.size_lt h.offset_lt hcomment hfile hlast hsaturated hpushed
  · exact h.specOf_eq path hcomment hfile hread

lemma isNarrow_samplePackage : ∀ m ∈ samplePackage, m.IsNarrow := by
  intro m hm
  simp only [samplePackage, List.mem_cons, List.not_mem_nil, or_false] at hm
  rcases hm with rfl | rfl
  all_goals exact ⟨by decide, by decide, by decide, by decide, by decide, by decide, by decide,
    by decide⟩

/-- A comment of text leaves the outcome of the sample package as it is. -/
theorem specOf_commented_sample :
    specOf "/data/ota.zip" (archiveWithComment samplePackage (Text.Utf8.encode "nightly"))
      = specOf "/data/ota.zip" (archiveOf samplePackage) := by
  have hfits : ∀ m ∈ samplePackage, m.Fits := fun m hm => (isNarrow_samplePackage m hm).fits
  have hlisted : ∀ m ∈ samplePackage, m.isDescribed = true →
      Listed (Directory.ofArchive (archiveOf samplePackage)) m := by
    intro m hm hdescribed
    simp only [samplePackage, List.mem_cons, List.not_mem_nil, or_false] at hm
    rcases hm with rfl | rfl
    · refine ⟨⟨directoryOf samplePackage, ?_, ?_⟩, ?_, fun _ => ?_⟩
      all_goals decide +kernel
    · exact absurd hdescribed (by decide)
  have hseen : IsSeen 2 (recordsFrom 0 samplePackage).length (entriesOf samplePackage).length
      (Text.Utf8.encode "nightly") := by
    refine ⟨fun j hj hends => ?_, fun hsaturated => absurd hsaturated (by decide +kernel)⟩
    have hnone : ∀ k < 8, 0 < k → numberAt (endRecord 2 (recordsFrom 0 samplePackage).length
        (entriesOf samplePackage).length (Text.Utf8.encode "nightly")) k 4 ≠ endSignature := by
      decide +kernel
    have hroom := hends.1
    rw [length_endRecord, show (Text.Utf8.encode "nightly").length = 7 by decide] at hroom
    exact hnone j (by omega) hj hends.2
  have hentries : StandsAt (entriesOf samplePackage ++ recordsFrom 0 samplePackage) 0
      (entriesOf samplePackage) := ⟨[], _, rfl, rfl⟩
  exact (specOf_commented "/data/ota.zip"
    (isPacked_members hfits (by decide +kernel) (by decide +kernel)) 2 (by decide)
    (by decide +kernel)
    fun p hp _ => isRead_piecesFrom hentries hfits (by decide +kernel) hlisted hp).2.2
      fun _ => hseen

/-- **A comment may hide the directory.**  The comment holds the end record of an archive without
entries.  The entry with a descriptor is then looked for in a directory without records, and the
package is refused. -/
theorem not_specOf_commented :
    ¬∀ (path : String) (ms : List Member) (comment : List UInt8), (∀ m ∈ ms, m.IsNarrow) →
      (ms.map Member.title).Nodup → comment.length ≤ maxComment →
      specOf path (archiveWithComment ms comment) = specOf path (archiveOf ms) := by
  intro h
  have hsame := h "/data/ota.zip" samplePackage (endRecord 0 0 0 []) isNarrow_samplePackage
    (by decide +kernel) (by decide)
  have hrefused : specOf "/data/ota.zip" (archiveWithComment samplePackage (endRecord 0 0 0 []))
      = .error (.archiveCorrupt (.notInDirectory "payload_properties.txt")) := by
    decide +kernel
  have hfound : specOf "/data/ota.zip" (archiveOf samplePackage)
      = .ok ⟨"file:///data/ota.zip", 118, 3, ["A=1", "B=2"]⟩ := by
    decide +kernel
  rw [hrefused, hfound] at hsame
  cases hsame

end FleetAgent.Update.Payload
