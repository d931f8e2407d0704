/-
# The records of a directory

`Record` is what a record of the directory says about an entry, whoever has written it: the bytes
of its name, its two sizes and the place of its header.  A number that does not fit 32 bits
saturates its field and is found in the field of wide sizes, behind those in front of it that do
not fit either (`Record.StandsAt`).

`Lists archive rs` says that the directory of an archive consists of the records `rs`: its place is
told by the last end record or, where that is saturated, by the wide end record (`DirectoryAt`).
What is read of such a directory is the titles of the records with their stored sizes, so of
several records with one title the last one is seen (`sizes?_told`).
-/
import FleetAgent.Proofs.Archive.EndRecord
import FleetAgent.Proofs.Archive.Telling
import Mathlib.Data.List.Nodup

namespace FleetAgent.Archive

/-! ## Records -/

/-- What a record of the directory says about an entry. -/
structure Record where
  name : List UInt8
  extra : List UInt8
  /-- The size of the data as it is stored. -/
  stored : Nat
  /-- The size of the data before compression. -/
  plain : Nat
  /-- The position of the header of the entry. -/
  offset : Nat

namespace Record

/-- The text of the name. -/
def title (r : Record) : String :=
  Text.Utf8.decodeLossy r.name

/-- What is read of a record. -/
def sizes (r : Record) : Sizes :=
  ⟨r.stored, isWideSize r.stored⟩

/-- The numbers that do not fit their fields, in their order. -/
def wideNumbers (r : Record) : List Nat :=
  [r.plain, r.stored, r.offset].filter isWideSize

/-- The record at a position of the directory, as its bytes tell. -/
structure StandsAt (dir : List UInt8) (i : Nat) (r : Record) : Prop where
  begins : RecordBegins dir i
  inside : recordStop dir i ≤ dir.length
  name_eq : r.name = bytesAt dir (i + recordLength) (numberAt dir (i + 28) 2)
  extra_eq : r.extra
    = bytesAt dir (i + recordLength + numberAt dir (i + 28) 2) (numberAt dir (i + 30) 2)
  stored_eq : numberAt dir (i + 20) 4 = narrow r.stored
  plain_eq : numberAt dir (i + 24) 4 = narrow r.plain
  offset_eq : numberAt dir (i + 42) 4 = narrow r.offset
  wide : r.wideNumbers ≠ [] → HoldsWide r.extra r.wideNumbers

end Record

/-- Where a record has no other extra fields than wide numbers, a few numbers tell whether it
stands in a directory. -/
lemma Record.standsAt_of_wideBlock {dir : List UInt8} {i : Nat} {r : Record}
    (h : i + recordLength ≤ dir.length ∧ numberAt dir i 4 = directorySignature ∧
      recordStop dir i ≤ dir.length ∧
      r.name = bytesAt dir (i + recordLength) (numberAt dir (i + 28) 2) ∧
      r.extra
        = bytesAt dir (i + recordLength + numberAt dir (i + 28) 2) (numberAt dir (i + 30) 2) ∧
      numberAt dir (i + 20) 4 = narrow r.stored ∧ numberAt dir (i + 24) 4 = narrow r.plain ∧
      numberAt dir (i + 42) 4 = narrow r.offset ∧ r.extra = wideBlock r.wideNumbers ∧
      ∀ n ∈ r.wideNumbers, n < 256 ^ 8) : r.StandsAt dir i := by
  obtain ⟨hroom, hbegins, hinside, hname, hextra, hstored, hplain, hoffset, hblock, hfit⟩ := h
  refine ⟨⟨hroom, hbegins⟩, hinside, hname, hextra, hstored, hplain, hoffset, fun hne => ?_⟩
  rw [hblock]
  simpa using holdsWide_wideBlock hne hfit []

variable {archive dir : List UInt8} {i : Nat} {r last : Record} {rs : List Record}

/-- The stored size comes behind the plain one, if that is wide as well. -/
lemma Record.wideNumbers_stored (h : isWideSize r.stored = true) :
    r.wideNumbers[storedIndex (narrow r.plain)]? = some r.stored := by
  rw [Record.wideNumbers, storedIndex]
  by_cases hplain : isWideSize r.plain = true
  · simp [narrow_eq_saturated_iff, hplain, h]
  · simp [narrow_eq_saturated_iff, hplain, h]

/-- A record tells its title and its stored size, whether that is written narrow or wide. -/
lemma Record.StandsAt.tells (h : r.StandsAt dir i) : RecordTells dir i (r.title, r.sizes) := by
  have htitle : r.title = recordTitleAt dir i := by rw [Record.title, h.name_eq, recordTitleAt]
  have hextra : recordExtraAt dir i = r.extra := h.extra_eq.symm
  refine ⟨h.begins, h.inside, htitle, ?_⟩
  rw [hextra, h.stored_eq, h.plain_eq]
  by_cases hwide : isWideSize r.stored = true
  · have hne : r.wideNumbers ≠ [] :=
      List.ne_nil_of_mem (List.mem_filter.mpr ⟨by simp, hwide⟩ : r.stored ∈ r.wideNumbers)
    obtain ⟨wide, hfirst, hstored⟩ := (h.wide hne).getElem?_eq
      (hextra ▸ length_recordExtraAt_lt dir i) (r.wideNumbers_stored hwide)
    have hsizes : r.sizes = ⟨r.stored, true⟩ := by rw [Record.sizes, hwide]
    exact hsizes ▸ .wide (narrow_eq_saturated_iff.mpr hwide) wide hfirst r.stored hstored
  · have hnarrow : isWideSize r.stored = false := Bool.eq_false_iff.mpr hwide
    have hsizes : r.sizes = ⟨narrow r.stored, false⟩ := by
      rw [Record.sizes, narrow_of_isWideSize hnarrow, hnarrow]
    exact hsizes ▸ .narrow (mt narrow_eq_saturated_iff.mp hwide)

/-! ## Directories -/

/-- The records that stand from a position of the directory on, up to where no record begins. -/
inductive Records (dir : List UInt8) : Nat → List Record → Prop where
  | nil (i : Nat) (hstop : ¬ RecordBegins dir i) : Records dir i []
  | cons (i : Nat) (r : Record) (rs : List Record) (hstands : r.StandsAt dir i)
      (hlater : Records dir (recordStop dir i) rs) : Records dir i (r :: rs)

/-- The offset and the size of the directory, as the end records tell. -/
inductive DirectoryAt (archive : List UInt8) (offset size : Nat) : Prop where
  /-- By the last end record. -/
  | narrow (i : Nat) (hlast : IsLastEnd (tailOf archive) i)
      (hsize : numberAt (tailOf archive) (i + 12) 4 = size)
      (hoffset : numberAt (tailOf archive) (i + 16) 4 = offset)
      (hnarrow : offset ≠ saturated ∧ size ≠ saturated)
  /-- By the wide end record, to which the locator in front of the last end record leads. -/
  | wide (i start : Nat) (hlast : IsLastEnd (tailOf archive) i)
      (hsaturated : numberAt (tailOf archive) (i + 16) 4 = saturated ∨
        numberAt (tailOf archive) (i + 12) 4 = saturated)
      (hroom : 20 ≤ i) (hlocator : numberAt (tailOf archive) (i - 20) 4 = locatorSignature)
      (hstart : numberAt (tailOf archive) (i - 20 + 8) 8 = start)
      (hinside : start + 56 ≤ archive.length)
      (hrecord : numberAt archive start 4 = wideEndSignature)
      (hsize : numberAt archive (start + 40) 8 = size)
      (hoffset : numberAt archive (start + 48) 8 = offset)

/-- The directory of an archive consists of the given records. -/
def Lists (archive : List UInt8) (rs : List Record) : Prop :=
  ∃ offset size, DirectoryAt archive offset size ∧ offset + size ≤ archive.length ∧
    Records (bytesAt archive offset size) 0 rs

/-- What is read of a directory, the last record first. -/
def told (rs : List Record) : Directory :=
  (rs.map fun r => (r.title, r.sizes)).reverse

/-- The wide end record is read where the locator leads. -/
lemma wideExtent_eq {tail : List UInt8} {start : Nat} (hfile : archive.length < Numeral.signed64End)
    (hi : i ≤ tail.length) (hroom : 20 ≤ i) (hlocator : numberAt tail (i - 20) 4 = locatorSignature)
    (hstart : numberAt tail (i - 20 + 8) 8 = start) (hinside : start + 56 ≤ archive.length)
    (hrecord : numberAt archive start 4 = wideEndSignature) :
    wideExtent archive tail i
      = .ok (numberAt archive (start + 48) 8, numberAt archive (start + 40) 8) := by
  have hsignature : field tail (i - 20) 4 = .ok locatorSignature :=
    hlocator ▸ field_eq_numberAt (by omega)
  have hplace : field tail (i - 20 + 8) 8 = .ok start := hstart ▸ field_eq_numberAt (by omega)
  have hread : read archive start 56 56 = .ok (bytesAt archive start 56) :=
    read_eq_bytesAt hinside (Nat.le_refl _) (by omega)
  have hfield {k width : Nat} (hk : k + width ≤ 56) :
      field (bytesAt archive start 56) k width = .ok (numberAt archive (start + k) width) := by
    rw [field_eq_numberAt (by rwa [length_bytesAt hinside]), numberAt_bytesAt archive start hk]
  have hwide : field (bytesAt archive start 56) 0 4 = .ok wideEndSignature :=
    hrecord ▸ hfield (by decide)
  simp [wideExtent, Nat.not_lt.mpr hroom, hsignature, hplace, hread, hwide,
    hfield (show 48 + 8 ≤ 56 by decide), hfield (show 40 + 8 ≤ 56 by decide), bind, Except.bind,
    pure, Except.pure]

/-- The last end record tells where the directory stands, or that a wide end record does. -/
lemma directoryExtent_of_isLastEnd (hfile : archive.length < Numeral.signed64End)
    (hlast : IsLastEnd (tailOf archive) i) : directoryExtent archive
      = if numberAt (tailOf archive) (i + 16) 4 ≠ saturated ∧
            numberAt (tailOf archive) (i + 12) 4 ≠ saturated then
          .ok (numberAt (tailOf archive) (i + 16) 4, numberAt (tailOf archive) (i + 12) 4)
        else wideExtent archive (tailOf archive) i := by
  have hroom := hlast.1.1
  have hlength : ¬ archive.length < endLength := by
    rw [length_tailOf] at hroom
    omega
  simp only [endLength] at hroom
  have hsize : field (tailOf archive) (i + 12) 4 = .ok _ := field_eq_numberAt (by omega)
  have hoffset : field (tailOf archive) (i + 16) 4 = .ok _ := field_eq_numberAt (by omega)
  simp only [directoryExtent, hlength, if_false, read_tailOf hfile,
    lastEnd?_eq_some_iff.mpr hlast, hsize, hoffset, bind, Except.bind]

/-- The directory is found where the end records tell. -/
lemma directoryExtent_of_directoryAt {offset size : Nat}
    (hfile : archive.length < Numeral.signed64End) (h : DirectoryAt archive offset size) :
    directoryExtent archive = .ok (offset, size) := by
  cases h with
  | narrow i hlast hsize hoffset hnarrow =>
    rw [directoryExtent_of_isLastEnd hfile hlast, hsize, hoffset, if_pos hnarrow]
  | wide i start hlast hsaturated hroom hlocator hstart hinside hrecord hsize hoffset =>
    have hi : i ≤ (tailOf archive).length := Nat.le_trans (Nat.le_add_right i _) hlast.1.1
    rw [directoryExtent_of_isLastEnd hfile hlast, if_neg (by tauto),
      wideExtent_eq hfile hi hroom hlocator hstart hinside hrecord, hsize, hoffset]

/-- Records tell what is read of them. -/
lemma Records.tell (h : Records dir i rs) :
    RecordsTell dir i (rs.map fun r => (r.title, r.sizes)) := by
  induction h with
  | nil i hstop => exact .nil i hstop
  | cons i r rs hstands hlater ih => exact .cons i _ _ hstands.tells ih

/-- The directory is read from where the end records tell, if it lies inside the archive. -/
lemma ofArchive_of_directoryAt {offset size : Nat} (hfile : archive.length < Numeral.signed64End)
    (hplace : DirectoryAt archive offset size) : Directory.ofArchive archive
      = if archive.length < offset + size then .error (.corrupt .directoryPastEnd)
        else directoryFrom (bytesAt archive offset size)
          ((bytesAt archive offset size).length + 1) 0 [] := by
  simp only [Directory.ofArchive, directoryExtent_of_directoryAt hfile hplace, bind, Except.bind]
  by_cases hend : archive.length < offset + size
  · rw [if_pos hend, if_pos hend]
  · have hread : read archive offset size archive.length = .ok (bytesAt archive offset size) :=
      read_eq_bytesAt (by omega) (by omega) (by omega)
    rw [if_neg hend, if_neg hend, hread]

/-- **The directory of an archive is what its records tell.** -/
theorem directory_of_lists (hfile : archive.length < Numeral.signed64End) (h : Lists archive rs) :
    Directory.ofArchive archive = .ok (told rs) := by
  obtain ⟨offset, size, hplace, hinside, hrecords⟩ := h
  have hlength := length_bytesAt hinside
  rw [ofArchive_of_directoryAt hfile hplace, if_neg (Nat.not_lt.mpr hinside),
    directoryFrom_eq_ok_iff (by omega), told, List.reverse_reverse]
  exact hrecords.tell

/-! ## The last record with a title -/

/-- A record is the last one with its title. -/
def IsLastTitled (rs : List Record) (last : Record) : Prop :=
  ∃ before after, rs = before ++ last :: after ∧ ∀ r ∈ after, r.title ≠ last.title

/-- A title is looked up in its last record. -/
lemma sizes?_told (h : IsLastTitled rs last) : (told rs).sizes? last.title = some last.sizes := by
  obtain ⟨before, after, rfl, hafter⟩ := h
  rw [Directory.sizes?, List.lookup_eq_some_iff]
  refine ⟨told after, told before, by simp [told], fun entry hentry => ?_⟩
  obtain ⟨r, hr, rfl⟩ := List.mem_map.mp (List.mem_reverse.mp hentry)
  simpa using (hafter r hr).symm

/-- The last records with one title tell the same. -/
lemma IsLastTitled.stored_eq {other : Record} (h : IsLastTitled rs last)
    (hother : IsLastTitled rs other) (htitle : last.title = other.title) :
    last.stored = other.stored := by
  have hsizes := sizes?_told h
  rw [htitle, sizes?_told hother] at hsizes
  exact (congrArg Sizes.stored (Option.some.inj hsizes)).symm

/-- Among the records with the title of one of them, there is a last one. -/
lemma exists_isLastTitled (h : r ∈ rs) : ∃ last, IsLastTitled rs last ∧ last.title = r.title := by
  have hsome : (rs.reverse.find? fun q => q.title == r.title).isSome :=
    List.find?_isSome.mpr ⟨r, List.mem_reverse.mpr h, beq_self_eq_true r.title⟩
  obtain ⟨last, hlast⟩ := Option.isSome_iff_exists.mp hsome
  obtain ⟨htitle, after, before, hrs, hafter⟩ := List.find?_eq_some_iff_append.mp hlast
  rw [beq_iff_eq] at htitle
  refine ⟨last, ⟨before.reverse, after.reverse, ?_, fun q hq => ?_⟩, htitle⟩
  · rw [← List.reverse_reverse rs, hrs]
    simp
  · rw [htitle]
    simpa using hafter q (List.mem_reverse.mp hq)

/-- Where titles are unique, each record is the last one with its title. -/
lemma isLastTitled_of_nodup (hunique : (rs.map Record.title).Nodup) (h : r ∈ rs) :
    IsLastTitled rs r := by
  obtain ⟨last, hlast, htitle⟩ := exists_isLastTitled h
  have hmem : last ∈ rs := by
    obtain ⟨before, after, rfl, -⟩ := hlast
    exact List.mem_append_right _ List.mem_cons_self
  rwa [List.inj_on_of_nodup_map hunique hmem h htitle] at hlast

end FleetAgent.Archive
