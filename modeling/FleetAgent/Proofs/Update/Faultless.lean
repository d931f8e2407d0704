/-
# A package is searched without faults

Whatever the bytes of a package are, if there are fewer than 2^63 of them, no check of the reader
fails on the way from its first entry to the place of its payload (`specOf_faultless`).

The invariant of the walk is that a position lies at most 24 bytes behind the end of the archive:
the data of an entry ends inside the archive, and what may follow it is a descriptor.  An entry is
read only where its signature has been read before, and it stops at least 30 bytes further on, so
the positions bound the number of rounds (`faultless_walk`).
-/
import FleetAgent.Proofs.Archive.Faultless
import FleetAgent.Proofs.Update.Walk

namespace FleetAgent.Update.Payload

open FleetAgent.Archive

variable {archive : List UInt8} {directory : Except Failure Directory} {e : Entry} {pos next : Nat}
  {found result : Found}

/-! ## Properties -/

/-- The inflated bytes that are kept: at most one more than properties may have. -/
def keptOf (raw : List UInt8) : List UInt8 :=
  (Deflate.inflate inflateLimit raw).2.take (maxProperties + 1)

/-- The bytes of deflated properties, told from those that are kept. -/
def inflatedKept (name : String) (raw : List UInt8) : Except Failure (List UInt8) :=
  let stop := (Deflate.inflate inflateLimit raw).1
  if stop = .invalid then .error (.corrupt (.cannotInflate name))
  else if maxProperties < (keptOf raw).length then .error (.corrupt (.tooLarge name))
  else if stop = .truncated then .error (.corrupt (.cannotInflate name))
  else .ok (keptOf raw)

lemma length_keptOf_le (raw : List UInt8) : (keptOf raw).length ≤ maxProperties + 1 := by
  rw [keptOf, List.length_take]
  exact Nat.min_le_left _ _

/-- What is not kept of inflated bytes does not matter. -/
lemma inflated_eq_inflatedKept (name : String) (raw : List UInt8) :
    inflated name raw = inflatedKept name raw := by
  rw [inflated, inflatedKept, keptOf]
  rcases Deflate.inflate inflateLimit raw with ⟨stop, out⟩
  dsimp only
  by_cases hlength : maxProperties < out.length
  · cases stop <;> simp [hlength]
  · have hall : out.take (maxProperties + 1) = out := List.take_of_length_le (by omega)
    cases stop <;> simp [hlength, hall]

lemma faultless_inflated (name : String) (raw : List UInt8) : Faultless (inflated name raw) := by
  rw [inflated_eq_inflatedKept, inflatedKept]
  split_ifs
  · exact faultless_corrupt _
  · exact faultless_corrupt _
  · exact faultless_corrupt _
  · exact faultless_ok _

lemma faultless_propertyBytes (archive : List UInt8) (e : Entry) :
    Faultless (propertyBytes archive e) := by
  rw [propertyBytes]
  by_cases hlarge : maxProperties < e.storedSize
  · rw [if_pos hlarge]
    exact faultless_corrupt _
  · rw [if_neg hlarge]
    refine .bind (faultless_read (Nat.not_lt.mp hlarge)) fun raw _ => ?_
    split_ifs
    · exact faultless_ok _
    · exact faultless_inflated _ _
    · exact faultless_corrupt _

/-! ## Steps -/

lemma faultless_visit (found : Found) (archive : List UInt8) (e : Entry) :
    Faultless (found.visit archive e) := by
  rw [Found.visit]
  split_ifs
  · exact faultless_ok _
  · exact faultless_corrupt _
  · exact .bind (faultless_propertyBytes archive e) fun _ _ => faultless_ok _
  · exact faultless_ok _

lemma faultless_entryBegins (hfile : archive.length < Numeral.signed64End)
    (hpos : pos ≤ archive.length + 24) : Faultless (entryBegins archive pos) := by
  rw [entryBegins]
  refine .of_ok (add_eq_ok_of_near (by omega) hfile) ?_
  by_cases hroom : archive.length < pos + 4
  · rw [if_pos hroom]
    exact faultless_ok _
  · rw [if_neg hroom]
    refine .of_ok (read32_eq_numberAt (by omega) (by omega)) ?_
    split_ifs
    · exact faultless_ok _
    · exact faultless_corrupt _
    · exact faultless_ok _

lemma faultless_step (hfile : archive.length < Numeral.signed64End) (hpos : pos ≤ archive.length)
    (hdirectory : Faultless directory) : Faultless (step archive directory pos found) := by
  rw [step]
  refine .bind (faultless_ofArchive hfile hpos hdirectory) fun e _ => ?_
  dsimp only
  split_ifs with hinside
  · exact faultless_corrupt _
  · exact .bind (faultless_visit found archive e) fun _ _ =>
      .bind (faultless_stop hfile (Nat.not_lt.mp hinside)) fun _ _ => faultless_ok _

/-- A step goes on by the length of a header at least, and at most to the end of a descriptor behind
the archive. -/
lemma step_next (h : step archive directory pos found = .ok (next, result)) :
    pos + headerLength ≤ next ∧ next ≤ archive.length + 24 := by
  obtain ⟨e, hstands, hinside, -, rfl⟩ := step_eq_ok h
  have hdescriptor := descriptorSize_le e archive
  have hoffset := hstands.dataOffset_eq
  omega

/-! ## The walk -/

/-- The entries are visited within a round for every 30 bytes that are left. -/
lemma faultless_walk (hfile : archive.length < Numeral.signed64End)
    (hdirectory : Faultless directory) :
    ∀ fuel pos found, pos ≤ archive.length + 24 →
      archive.length + 26 < pos + headerLength * fuel →
      Faultless (walk archive directory fuel pos found) := by
  intro fuel
  induction fuel with
  | zero => exact fun pos found hpos hfuel => absurd hpos (by omega)
  | succ fuel ih =>
    intro pos found hpos hfuel
    rw [walk]
    refine .bind (faultless_entryBegins hfile hpos) fun begins hbegins => ?_
    split_ifs with hcase
    · have hroom := ((entryBegins_eq_ok hbegins).mp hcase).1
      refine .bind (faultless_step hfile (by omega) hdirectory) fun ⟨next, visited⟩ hstep => ?_
      obtain ⟨hnext, hend⟩ := step_next hstep
      exact ih next visited hend (by rw [Nat.mul_succ] at hfuel; omega)
    · exact faultless_ok _

lemma faultless_find (hfile : archive.length < Numeral.signed64End) : Faultless (find archive) :=
  faultless_walk hfile (faultless_directory hfile) _ 0 _ (Nat.zero_le _)
    (by simp only [headerLength]; omega)

/-- **A package is searched without faults.**  Whatever the bytes of an archive are, if there are
fewer than 2^63 of them, no sum overflows, no access leaves its buffer, no buffer is longer than
the archive, or than a name and extra fields or properties may be, and every loop ends.

The walk takes a round for every 30 bytes at most, the reading of the directory one for every 46
and the search of the extra fields one for every four.  The differences and the accesses of the
search for the end record, and the cut between the name and the extra fields, can be checked as
well without any change, and of inflated properties one byte more than they may have is enough. -/
theorem specOf_faultless (path : String) (archive : List UInt8)
    (hfile : archive.length < Numeral.signed64End) :
    (∀ fault, specOf path archive ≠ .error (.archiveFault fault)) ∧
    -- the entries
    (∀ fuel, archive.length + 26 < 30 * fuel →
      Faultless (walk archive (Directory.ofArchive archive) fuel 0 ⟨none, none⟩)) ∧
    (∀ pos found next result,
      step archive (Directory.ofArchive archive) pos found = .ok (next, result) →
        pos + 30 ≤ next ∧ next ≤ archive.length + 24) ∧
    (∀ directory pos,
      Entry.ofArchive archive directory pos = Entry.ofArchiveCut archive directory pos) ∧
    -- the directory
    Faultless (Directory.ofArchive archive) ∧
    directoryExtent archive = extentBackwards archive ∧
    (∀ dir fuel, dir.length ≤ archive.length → dir.length < 46 * fuel →
      Faultless (directoryFrom dir fuel 0 [])) ∧
    (∀ dir i entry next, directoryRecord dir i = .ok (entry, next) →
      i + 46 ≤ next ∧ next ≤ dir.length) ∧
    -- extra fields
    (∀ extra fuel, extra.length ≤ maxNameExtra → extra.length < 4 * fuel →
      Faultless (wideSizesFrom extra fuel 0)) ∧
    -- properties
    (∀ name raw, inflated name raw = inflatedKept name raw) ∧
    ∀ raw, (keptOf raw).length ≤ 65537 := by
  have hdirectory := faultless_directory hfile
  refine ⟨fun fault h => ?_, fun fuel hfuel => ?_, fun pos found next result h => step_next h,
    fun directory pos => Entry.ofArchive_eq_cut archive directory pos, hdirectory,
    directoryExtent_eq_backwards hfile, fun dir fuel hdir hfuel => ?_,
    fun dir i entry next h => directoryRecord_next h, fun extra fuel hextra hfuel => ?_,
    inflated_eq_inflatedKept, length_keptOf_le⟩
  · rw [specOf] at h
    split at h
    · next failure hfailure =>
      cases failure with
      | fault g => exact faultless_find hfile g hfailure
      | corrupt c => cases h
      | unseekable => cases h
    · split at h <;> cases h
  · exact faultless_walk hfile hdirectory fuel 0 _ (Nat.zero_le _)
      (by simp only [headerLength]; omega)
  · exact faultless_directoryFrom (Nat.lt_of_le_of_lt hdir hfile) fuel 0 [] (Nat.zero_le _)
      (by simp only [recordLength]; omega)
  · exact faultless_wideSizesFrom (Nat.lt_of_le_of_lt hextra (by decide)) fuel 0 (Nat.zero_le _)
      (by omega)

/-- An archive whose directory tells that the data of its entry has 2^64 - 1 bytes. -/
def endlessEntry : List UInt8 :=
  fields [(4, entrySignature), (2, 20), (2, 8), (2, 0), (4, 0), (4, 0), (4, 0), (4, 0), (2, 1),
      (2, 0)]
    ++ [0x61]
    ++ fields [(4, directorySignature), (4, 20), (2, 8), (2, 0), (4, 0), (4, 0), (4, saturated),
      (4, 0), (2, 1), (2, 12), (2, 0), (8, 0), (4, 0)]
    ++ [0x61] ++ fields [(2, wideSizesId), (2, 8), (8, Numeral.unsigned64End - 1)]
    ++ fields [(4, endSignature), (4, 0), (2, 1), (2, 1), (4, 59), (4, 31), (2, 0)]

/-- The data of the entry would end behind the greatest number of 64 bits, which is no fault. -/
theorem specOf_faultless_sample :
    endlessEntry.length < Numeral.signed64End ∧
      (∀ fault, specOf "/data/ota.zip" endlessEntry ≠ .error (.archiveFault fault)) ∧
      specOf "/data/ota.zip" endlessEntry = .error (.archiveCorrupt (.pastEnd "a")) := by
  have hfile : endlessEntry.length < Numeral.signed64End := by decide +kernel
  exact ⟨hfile, (specOf_faultless "/data/ota.zip" endlessEntry hfile).1, by decide +kernel⟩

end FleetAgent.Update.Payload
