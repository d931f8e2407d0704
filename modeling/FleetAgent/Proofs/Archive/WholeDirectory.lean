/-
# A directory is read whole or not at all

Records that fill a directory are read as a map from their titles to their stored sizes, in which
the last record with a title counts (`sizes?_reverse`).  If a record in a directory overruns it or
lacks its wide size then the archive is corrupt, and otherwise what is read are all the records, up
to where none begins (`Directory.ofArchive_spec`).  What stands behind the last of them, another
signature or fewer bytes than the fixed part of a record, is left alone.
-/
import FleetAgent.Proofs.Archive.Comment
import Mathlib.Data.List.Induction

namespace FleetAgent.Archive

variable {archive : List UInt8}

/-! ## Looking titles up -/

/-- A title is looked up in the last entry with it. -/
lemma sizes?_reverse (entries : List (String × Sizes)) (title : String) :
    Directory.sizes? entries.reverse title
      = ((entries.filter fun entry => entry.1 = title).getLast?).map Prod.snd := by
  induction entries using List.reverseRecOn with
  | nil => rfl
  | append_singleton entries entry ih =>
    obtain ⟨key, told⟩ := entry
    rw [Directory.sizes?] at ih ⊢
    rw [List.reverse_append, List.reverse_singleton, List.singleton_append, List.lookup_cons,
      List.filter_append, ih]
    by_cases htitle : key = title
    · simp [htitle]
    · have hother : (title == key) = false := by simpa using Ne.symm htitle
      simp [htitle, hother]

/-! ## Main result -/

/-- **A directory is read whole or not at all.**  Let the end records of an archive tell where its
directory stands.  If records fill it, then they are read as a map in which every title has the
sizes of its last record.  If the name, the extra fields and the comment of a record overrun it, or a
wide size is missing, then the archive is corrupt.  And whenever a directory is read, it is what its
records tell from the beginning up to where none begins, and none of them is left out. -/
theorem Directory.ofArchive_spec {offset size : Nat} (hfile : archive.length < Numeral.signed64End)
    (hplace : DirectoryAt archive offset size) :
    (∀ rs : List WrittenRecord, (∀ r ∈ rs, r.Fits) → StandsAt archive offset (recordsOf rs) →
      (recordsOf rs).length = size →
      ∃ d, Directory.ofArchive archive = .ok d ∧ ∀ title, d.sizes? title
        = ((rs.filter fun r => r.title = title).getLast?).map WrittenRecord.sizes) ∧
    (∀ i, RecordReached (bytesAt archive offset size) i →
      RecordFails (bytesAt archive offset size) i →
      ∃ c, Directory.ofArchive archive = .error (.corrupt c)) ∧
    ∀ d, Directory.ofArchive archive = .ok d →
      RecordsTell (bytesAt archive offset size) 0 d.reverse ∧
      ∀ i, RecordReached (bytesAt archive offset size) i →
        ∃ entry ∈ d, RecordTells (bytesAt archive offset size) i entry := by
  have hread := ofArchive_of_directoryAt hfile hplace
  have hdir : (bytesAt archive offset size).length < Numeral.signed64End := by
    rw [bytesAt, List.length_take, List.length_drop]
    omega
  refine ⟨fun rs hrs hat hsize => ?_, fun i hreached hfails => ?_, fun d hd => ?_⟩
  · subst hsize
    have hdirectory : bytesAt archive offset (recordsOf rs).length = recordsOf rs :=
      bytesAt_of_standsAt hat
    have htell : RecordsTell (recordsOf rs) 0 (rs.map fun r => (r.title, r.sizes)) :=
      recordsTell_recordsOf hrs 0 (standsAt_self _) (Nat.zero_add _)
    rw [hdirectory] at hread hdir
    rw [← List.reverse_reverse (rs.map fun r => (r.title, r.sizes)),
      ← directoryFrom_eq_ok_iff hdir] at htell
    rw [if_neg (Nat.not_lt.mpr hat.length_le), htell] at hread
    refine ⟨_, hread, fun title => ?_⟩
    rw [sizes?_reverse, List.filter_map, List.getLast?_map, Option.map_map]
    rfl
  · by_cases hend : archive.length < offset + size
    · exact ⟨_, hread.trans (if_pos hend)⟩
    · rw [hread, if_neg hend]
      exact directoryFrom_of_recordFails hdir hreached hfails
  · rw [hread] at hd
    split_ifs at hd with hend
    have htell := (directoryFrom_eq_ok_iff hdir).mp hd
    refine ⟨htell, fun i hreached => ?_⟩
    obtain ⟨entry, hmem, htells⟩ := htell.exists_mem hreached
    exact ⟨entry, List.mem_reverse.mp hmem, htells⟩

/-- Records with a wide stored size behind another extra field and behind the size before
compression, and two with one title. -/
def sampleRecords : List WrittenRecord :=
  [⟨List.replicate 16 0, saturated, saturated, List.replicate 12 0, [0x61],
      extraBlock [⟨0xCAFE, [5]⟩, ⟨wideSizesId, fields [(8, 2 ^ 33), (8, 2 ^ 32 + 5)]⟩], [],
      2 ^ 32 + 5⟩,
    ⟨List.replicate 16 0, 7, 7, List.replicate 12 0, [0xFF], [], [0x63], 7⟩,
    ⟨List.replicate 16 0, 9, saturated, List.replicate 12 0, [0xFE], [1], [], 9⟩]

/-- An archive that consists of records and of an end record, which tells a size of the directory. -/
def recordArchive (rs : List WrittenRecord) (size : Nat) : List UInt8 :=
  recordsOf rs ++ endRecord rs.length size 0 []

lemma directoryAt_recordArchive (rs : List WrittenRecord) {size : Nat} (hsize : size < saturated) :
    DirectoryAt (recordArchive rs size) 0 size :=
  directoryAt_of_isSeen (Nat.lt_trans hsize (by decide)) (by decide) (Nat.zero_le _)
    (isSeen_nil _ _ _) (.narrow (by decide) (Nat.ne_of_lt hsize) rfl rfl)

lemma fits_sampleRecords : ∀ r ∈ sampleRecords, r.Fits := by
  intro r hr
  simp only [sampleRecords, List.mem_cons, List.not_mem_nil, or_false] at hr
  rcases hr with rfl | rfl | rfl
  · refine ⟨by decide, by decide, by decide, by decide, by decide, by decide, by decide, nofun,
      fun _ => ⟨2 ^ 33, [⟨0xCAFE, [5]⟩], [], [], ?_, ?_, ?_⟩⟩ <;> decide
  · exact ⟨by decide, by decide, by decide, by decide, by decide, by decide, by decide,
      fun _ => rfl, fun h => absurd h (by decide)⟩
  · exact ⟨by decide, by decide, by decide, by decide, by decide, by decide, by decide,
      fun _ => rfl, fun h => absurd h (by decide)⟩

/-- The wide size is found and the last of two records with one title counts; a directory whose last
byte is cut off is not read. -/
theorem Directory.ofArchive_spec_sample :
    (∃ d, Directory.ofArchive (recordArchive sampleRecords (recordsOf sampleRecords).length) = .ok d ∧
      d.sizes? "a" = some ⟨2 ^ 32 + 5, true⟩ ∧ d.sizes? "\uFFFD" = some ⟨9, false⟩) ∧
    ∃ c, Directory.ofArchive
      (recordArchive sampleRecords ((recordsOf sampleRecords).length - 1)) = .error (.corrupt c) := by
  constructor
  · obtain ⟨d, hd, hsizes⟩ := (Directory.ofArchive_spec (by decide +kernel)
      (directoryAt_recordArchive sampleRecords (by decide +kernel))).1 sampleRecords
      fits_sampleRecords (standsAt_self _).left rfl
    refine ⟨d, hd, ?_, ?_⟩
    · rw [hsizes]
      decide +kernel
    · rw [hsizes]
      decide +kernel
  · refine (Directory.ofArchive_spec (by decide +kernel)
      (directoryAt_recordArchive sampleRecords (by decide +kernel))).2.1 _
      (.next _ (.next _ (.first ⟨by decide +kernel, by decide +kernel⟩)
        ⟨by decide +kernel, by decide +kernel⟩) ⟨by decide +kernel, by decide +kernel⟩)
      (.inl (by decide +kernel))

end FleetAgent.Archive
