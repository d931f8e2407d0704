/-
# What the records of a directory tell

The records of a directory stand one behind the other, up to a position where none begins: fewer
bytes than a fixed part takes up are left, or another signature stands there (`RecordBegins`).  What
a record tells are its title and its stored size, which stands in its narrow field or, if that is
saturated, among the numbers of the first field of wide sizes, behind the size before compression if
that is saturated too (`TellsSizes`).  A record tells nothing if it overruns the directory or if a
wide size is missing (`RecordFails`).

A directory is read exactly if all of its records tell something, and what is read is what they tell
(`directoryFrom_eq_ok_iff`).  If one of them does not then the reading fails, wherever the record
stands (`directoryFrom_of_recordFails`), so nothing is ever left out.
-/
import FleetAgent.Proofs.Archive.Extra

namespace FleetAgent.Archive

/-! ## Places in a record -/

/-- A record begins at a position of the directory. -/
def RecordBegins (dir : List UInt8) (i : Nat) : Prop :=
  i + recordLength ≤ dir.length ∧ numberAt dir i 4 = directorySignature

/-- The position behind the record at a position. -/
def recordStop (dir : List UInt8) (i : Nat) : Nat :=
  i + recordLength + numberAt dir (i + 28) 2 + numberAt dir (i + 30) 2 + numberAt dir (i + 32) 2

/-- The text of the name in the record at a position. -/
def recordTitleAt (dir : List UInt8) (i : Nat) : String :=
  Text.Utf8.decodeLossy (bytesAt dir (i + recordLength) (numberAt dir (i + 28) 2))

/-- The extra fields in the record at a position. -/
def recordExtraAt (dir : List UInt8) (i : Nat) : List UInt8 :=
  bytesAt dir (i + recordLength + numberAt dir (i + 28) 2) (numberAt dir (i + 30) 2)

/-- The index of the stored size among the wide sizes of a record. -/
def storedIndex (uncompressed : Nat) : Nat :=
  if uncompressed = saturated then 1 else 0

/-! ## What is told -/

/-- What the extra fields and the two narrow sizes of a record tell about the stored size. -/
inductive TellsSizes (extra : List UInt8) (compressed uncompressed : Nat) : Sizes → Prop where
  /-- The stored size is narrow. -/
  | narrow (hnarrow : compressed ≠ saturated) :
      TellsSizes extra compressed uncompressed ⟨compressed, false⟩
  /-- The stored size is one of the wide sizes. -/
  | wide (hsaturated : compressed = saturated) (wide : ExtraField) (hfirst : FirstWide extra wide)
      (stored : Nat) (hstored : (numbersIn wide.data)[storedIndex uncompressed]? = some stored) :
      TellsSizes extra compressed uncompressed ⟨stored, true⟩

/-- The stored size is wide, and missing: there is no field of wide sizes, or the first one has too
few numbers. -/
def LacksSize (extra : List UInt8) (compressed uncompressed : Nat) : Prop :=
  compressed = saturated ∧
    ∀ wide, FirstWide extra wide → (numbersIn wide.data).length ≤ storedIndex uncompressed

/-- What the record at a position of the directory tells. -/
structure RecordTells (dir : List UInt8) (i : Nat) (entry : String × Sizes) : Prop where
  begins : RecordBegins dir i
  inside : recordStop dir i ≤ dir.length
  title_eq : entry.1 = recordTitleAt dir i
  sizes : TellsSizes (recordExtraAt dir i) (numberAt dir (i + 20) 4) (numberAt dir (i + 24) 4)
    entry.2

/-- What the records from a position of the directory on tell, up to where no record begins. -/
inductive RecordsTell (dir : List UInt8) : Nat → List (String × Sizes) → Prop where
  | nil (i : Nat) (hstop : ¬ RecordBegins dir i) : RecordsTell dir i []
  | cons (i : Nat) (entry : String × Sizes) (entries : List (String × Sizes))
      (htells : RecordTells dir i entry) (hlater : RecordsTell dir (recordStop dir i) entries) :
      RecordsTell dir i (entry :: entries)

/-- The record at a position cannot be read: its name, its extra fields and its comment overrun the
directory, or a wide size is missing. -/
def RecordFails (dir : List UInt8) (i : Nat) : Prop :=
  dir.length < recordStop dir i ∨
    LacksSize (recordExtraAt dir i) (numberAt dir (i + 20) 4) (numberAt dir (i + 24) 4)

/-- A record begins at a position where the ones in front of it, from the beginning of the directory
on, end. -/
inductive RecordReached (dir : List UInt8) : Nat → Prop where
  | first (hbegins : RecordBegins dir 0) : RecordReached dir 0
  | next (i : Nat) (hreached : RecordReached dir i)
      (hbegins : RecordBegins dir (recordStop dir i)) : RecordReached dir (recordStop dir i)

variable {dir extra : List UInt8} {compressed uncompressed i : Nat} {sizes : Sizes}
  {entry : String × Sizes} {entries : List (String × Sizes)}

/-! ## Sizes -/

lemma recordSizes_of_tellsSizes (hextra : extra.length < Numeral.signed64End)
    (h : TellsSizes extra compressed uncompressed sizes) (name : String) :
    recordSizes name extra compressed uncompressed = .ok sizes := by
  cases h with
  | narrow hnarrow => rw [recordSizes, if_neg hnarrow]; rfl
  | wide hsaturated wide hfirst stored hstored =>
    have hsize : wideSize name extra (storedIndex uncompressed) = .ok stored :=
      hfirst.wideSize_eq hextra hstored name
    rw [recordSizes, if_pos hsaturated, ← storedIndex, hsize]
    rfl

lemma recordSizes_of_lacksSize (hextra : extra.length < Numeral.signed64End)
    (h : LacksSize extra compressed uncompressed) (name : String) :
    recordSizes name extra compressed uncompressed = .error (.corrupt (.lacksSizes name)) := by
  obtain ⟨hsaturated, hlacks⟩ := h
  have hsize : wideSize name extra (storedIndex uncompressed)
      = .error (.corrupt (.lacksSizes name)) := by
    obtain ⟨found, hfound⟩ := exists_wideSizes hextra
    have hnone : found.bind (·[storedIndex uncompressed]?) = none := by
      cases found with
      | none => rfl
      | some numbers =>
        obtain ⟨wide, hfirst, rfl⟩ := (wideSizes_eq_some_iff hextra).mp hfound
        exact List.getElem?_eq_none (hlacks wide hfirst)
    rw [wideSize, hfound]
    simp only [bind, Except.bind, hnone]
  rw [recordSizes, if_pos hsaturated, ← storedIndex, hsize]
  rfl

lemma tellsSizes_or_lacksSize (extra : List UInt8) (compressed uncompressed : Nat) :
    (∃ sizes, TellsSizes extra compressed uncompressed sizes) ∨
      LacksSize extra compressed uncompressed := by
  by_cases hsaturated : compressed = saturated
  · by_cases htells : ∃ wide, FirstWide extra wide ∧
        storedIndex uncompressed < (numbersIn wide.data).length
    · obtain ⟨wide, hfirst, hlt⟩ := htells
      exact .inl ⟨_, .wide hsaturated wide hfirst _ (List.getElem?_eq_getElem hlt)⟩
    · exact .inr ⟨hsaturated, fun wide hfirst => Nat.le_of_not_lt fun hlt =>
        htells ⟨wide, hfirst, hlt⟩⟩
  · exact .inl ⟨_, .narrow hsaturated⟩

/-! ## One record -/

/-- The extra fields of a record are no longer than their length can tell. -/
lemma length_recordExtraAt_lt (dir : List UInt8) (i : Nat) :
    (recordExtraAt dir i).length < 256 ^ 2 :=
  Nat.lt_of_le_of_lt (length_bytesAt_le _ _ _) (numberAt_lt _ _ _)

/-- How a record is read: if it does not overrun the directory, its sizes decide. -/
lemma directoryRecord_eq (hdir : dir.length < Numeral.signed64End)
    (hroom : i + recordLength ≤ dir.length) :
    directoryRecord dir i
      = if dir.length < recordStop dir i then .error (.corrupt .truncatedDirectory)
        else do
          let sizes ← recordSizes (recordTitleAt dir i) (recordExtraAt dir i)
            (numberAt dir (i + 20) 4) (numberAt dir (i + 24) 4)
          return ((recordTitleAt dir i, sizes), recordStop dir i) := by
  have hname := numberAt_lt dir (i + 28) 2
  have hextra := numberAt_lt dir (i + 30) 2
  have hcomment := numberAt_lt dir (i + 32) 2
  have hfield {k width : Nat} (hk : k + width ≤ recordLength) :
      field dir (i + k) width = .ok (numberAt dir (i + k) width) :=
    field_eq_numberAt (by omega)
  have hadd {a b : Nat} (hle : a + b ≤ dir.length + 3 * 256 ^ 2) : add a b = .ok (a + b) :=
    add_eq_ok_of_near (by omega) hdir
  have hnameStart : add i recordLength = .ok (i + recordLength) := hadd (by omega)
  have hextraStart : add (i + recordLength) (numberAt dir (i + 28) 2) = .ok _ := hadd (by omega)
  have hcommentStart : add (i + recordLength + numberAt dir (i + 28) 2) (numberAt dir (i + 30) 2)
      = .ok _ := hadd (by omega)
  have hnext : add (i + recordLength + numberAt dir (i + 28) 2 + numberAt dir (i + 30) 2)
      (numberAt dir (i + 32) 2) = .ok (recordStop dir i) := hadd (by omega)
  simp only [directoryRecord, hfield (show 20 + 4 ≤ recordLength by decide),
    hfield (show 24 + 4 ≤ recordLength by decide), hfield (show 28 + 2 ≤ recordLength by decide),
    hfield (show 30 + 2 ≤ recordLength by decide), hfield (show 32 + 2 ≤ recordLength by decide),
    hnameStart, hextraStart, hcommentStart, hnext, bind, Except.bind]
  by_cases hend : dir.length < recordStop dir i
  · rw [if_pos hend, if_pos hend]
  · have hinside : i + recordLength + numberAt dir (i + 28) 2 + numberAt dir (i + 30) 2
        ≤ dir.length := by
      rw [recordStop] at hend
      omega
    rw [if_neg hend, if_neg hend, slice?_eq_bytesAt (by omega), slice?_eq_bytesAt hinside]
    rfl

/-- A record that tells something is read as it tells. -/
lemma RecordTells.directoryRecord_eq (h : RecordTells dir i entry)
    (hdir : dir.length < Numeral.signed64End) :
    directoryRecord dir i = .ok (entry, recordStop dir i) := by
  have hextra := length_recordExtraAt_lt dir i
  have hsizes := recordSizes_of_tellsSizes (Nat.lt_trans hextra (by decide)) h.sizes
    (recordTitleAt dir i)
  rw [Archive.directoryRecord_eq hdir h.begins.1, if_neg (Nat.not_lt.mpr h.inside), hsizes,
    ← h.title_eq]
  rfl

/-- A record that cannot be read makes the archive corrupt. -/
lemma RecordFails.directoryRecord_eq (h : RecordFails dir i) (hbegins : RecordBegins dir i)
    (hdir : dir.length < Numeral.signed64End) :
    ∃ c, directoryRecord dir i = .error (.corrupt c) := by
  rw [Archive.directoryRecord_eq hdir hbegins.1]
  by_cases hend : dir.length < recordStop dir i
  · exact ⟨_, if_pos hend⟩
  · have hextra := length_recordExtraAt_lt dir i
    rw [if_neg hend, recordSizes_of_lacksSize (Nat.lt_trans hextra (by decide))
      (h.resolve_left hend)]
    exact ⟨_, rfl⟩

/-- A record that begins tells something or cannot be read. -/
lemma recordTells_or_recordFails (hbegins : RecordBegins dir i) :
    (∃ entry, RecordTells dir i entry) ∨ RecordFails dir i := by
  by_cases hend : dir.length < recordStop dir i
  · exact .inr (.inl hend)
  · rcases tellsSizes_or_lacksSize (recordExtraAt dir i) (numberAt dir (i + 20) 4)
      (numberAt dir (i + 24) 4) with ⟨sizes, hsizes⟩ | hlacks
    · exact .inl ⟨(recordTitleAt dir i, sizes), hbegins, Nat.not_lt.mp hend, rfl, hsizes⟩
    · exact .inr (.inr hlacks)

lemma RecordTells.not_recordFails (h : RecordTells dir i entry)
    (hdir : dir.length < Numeral.signed64End) : ¬ RecordFails dir i := by
  intro hfails
  obtain ⟨c, hc⟩ := hfails.directoryRecord_eq h.begins hdir
  rw [h.directoryRecord_eq hdir] at hc
  cases hc

lemma recordLength_le_recordStop (dir : List UInt8) (i : Nat) :
    i + recordLength ≤ recordStop dir i := by
  rw [recordStop]
  omega

/-! ## All records -/

/-- Where a record begins the reading goes on with it, and elsewhere it ends. -/
lemma directoryFrom_succ (hdir : dir.length < Numeral.signed64End) (hi : i ≤ dir.length)
    (fuel : Nat) (done : Directory) :
    (RecordBegins dir i → directoryFrom dir (fuel + 1) i done = do
      let (entry, next) ← directoryRecord dir i
      directoryFrom dir fuel next (entry :: done)) ∧
    (¬ RecordBegins dir i → directoryFrom dir (fuel + 1) i done = .ok done) := by
  have hadd : add i recordLength = .ok (i + recordLength) :=
    add_eq_ok_of_near (by simp only [recordLength]; omega) hdir
  rw [directoryFrom, hadd]
  by_cases hroom : i + recordLength ≤ dir.length
  · have hfield : field dir i 4 = .ok (numberAt dir i 4) :=
      field_eq_numberAt (by simp only [recordLength] at hroom; omega)
    constructor
    · intro hbegins
      simp only [bind, Except.bind, hroom, if_true, hfield, hbegins.2]
    · intro hstop
      have hother : numberAt dir i 4 ≠ directorySignature := fun h => hstop ⟨hroom, h⟩
      simp only [bind, Except.bind, hroom, if_true, hfield, hother, if_false]
  · constructor
    · intro hbegins
      exact absurd hbegins.1 hroom
    · intro hstop
      simp only [bind, Except.bind, hroom, if_false]

/-- What the records tell is read, the last record first. -/
lemma RecordsTell.directoryFrom_eq (h : RecordsTell dir i entries)
    (hdir : dir.length < Numeral.signed64End) :
    ∀ fuel done, i ≤ dir.length → dir.length < i + recordLength * fuel →
      directoryFrom dir fuel i done = .ok (entries.reverse ++ done) := by
  induction h with
  | nil i hstop =>
    intro fuel done hi hfuel
    obtain ⟨fuel, rfl⟩ : ∃ m, fuel = m + 1 := ⟨fuel - 1, by cases fuel <;> omega⟩
    rw [(directoryFrom_succ hdir hi fuel done).2 hstop]
    rfl
  | cons i entry entries htells hlater ih =>
    intro fuel done hi hfuel
    obtain ⟨fuel, rfl⟩ : ∃ m, fuel = m + 1 := ⟨fuel - 1, by cases fuel <;> omega⟩
    have hnext := recordLength_le_recordStop dir i
    have hrest := ih fuel (entry :: done) htells.inside (by rw [Nat.mul_succ] at hfuel; omega)
    rw [(directoryFrom_succ hdir hi fuel done).1 htells.begins, htells.directoryRecord_eq hdir]
    simp only [bind, Except.bind, hrest]
    simp

/-- The records of a directory tell something from a position on, or the reading from there fails. -/
lemma recordsTell_or_corrupt (hdir : dir.length < Numeral.signed64End) :
    ∀ fuel i, i ≤ dir.length → dir.length < i + recordLength * fuel →
      (∃ entries, RecordsTell dir i entries) ∨
        ∃ c, ∀ done, directoryFrom dir fuel i done = .error (.corrupt c) := by
  intro fuel
  induction fuel with
  | zero =>
    intro i hi hfuel
    omega
  | succ fuel ih =>
    intro i hi hfuel
    by_cases hbegins : RecordBegins dir i
    · have hstep := fun done => (directoryFrom_succ hdir hi fuel done).1 hbegins
      rcases recordTells_or_recordFails hbegins with ⟨entry, htells⟩ | hfails
      · have hnext := recordLength_le_recordStop dir i
        rcases ih (recordStop dir i) htells.inside (by rw [Nat.mul_succ] at hfuel; omega) with
          ⟨entries, hlater⟩ | ⟨c, hc⟩
        · exact .inl ⟨_, .cons i entry entries htells hlater⟩
        · refine .inr ⟨c, fun done => ?_⟩
          rw [hstep, htells.directoryRecord_eq hdir]
          exact hc _
      · obtain ⟨c, hc⟩ := hfails.directoryRecord_eq hbegins hdir
        refine .inr ⟨c, fun done => ?_⟩
        rw [hstep, hc]
        rfl
    · exact .inl ⟨[], .nil i hbegins⟩

lemma RecordReached.begins (h : RecordReached dir i) : RecordBegins dir i := by
  cases h with
  | first hbegins => exact hbegins
  | next i hreached hbegins => exact hbegins

/-- If all records tell something, so do the last ones, from a reached one on. -/
lemma RecordsTell.of_reached (h : RecordsTell dir 0 entries) (hreached : RecordReached dir i) :
    ∃ later, RecordsTell dir i later ∧ later <:+ entries := by
  induction hreached with
  | first hbegins => exact ⟨entries, h, List.suffix_refl entries⟩
  | next i hreached hbegins ih =>
    obtain ⟨later, hlater, hsuffix⟩ := ih
    cases hlater with
    | nil i hstop => exact absurd hreached.begins hstop
    | cons i entry later htells hlater => exact ⟨later, hlater, (List.suffix_cons _ _).trans hsuffix⟩

/-- What a reached record tells is among what all of them tell. -/
lemma RecordsTell.exists_mem (h : RecordsTell dir 0 entries) (hreached : RecordReached dir i) :
    ∃ entry ∈ entries, RecordTells dir i entry := by
  obtain ⟨later, hlater, hsuffix⟩ := h.of_reached hreached
  cases hlater with
  | nil i hstop => exact absurd hreached.begins hstop
  | cons i entry later htells hlater => exact ⟨entry, hsuffix.subset List.mem_cons_self, htells⟩

/-- **A directory is read as what all of its records tell.** -/
theorem directoryFrom_eq_ok_iff (hdir : dir.length < Numeral.signed64End) {d : Directory} :
    directoryFrom dir (dir.length + 1) 0 [] = .ok d ↔ RecordsTell dir 0 d.reverse := by
  have hfuel : dir.length < 0 + recordLength * (dir.length + 1) := by
    simp only [recordLength]
    omega
  constructor
  · intro h
    rcases recordsTell_or_corrupt hdir (dir.length + 1) 0 (Nat.zero_le _) hfuel with
      ⟨entries, htell⟩ | ⟨c, hc⟩
    · rw [htell.directoryFrom_eq hdir _ [] (Nat.zero_le _) hfuel, List.append_nil,
        Except.ok.injEq] at h
      rwa [← h, List.reverse_reverse]
    · rw [hc] at h
      cases h
  · intro htell
    rw [htell.directoryFrom_eq hdir _ [] (Nat.zero_le _) hfuel, List.append_nil,
      List.reverse_reverse]

/-- **A record that cannot be read makes the whole archive corrupt.** -/
theorem directoryFrom_of_recordFails (hdir : dir.length < Numeral.signed64End)
    (hreached : RecordReached dir i) (hfails : RecordFails dir i) :
    ∃ c, directoryFrom dir (dir.length + 1) 0 [] = .error (.corrupt c) := by
  have hfuel : dir.length < 0 + recordLength * (dir.length + 1) := by
    simp only [recordLength]
    omega
  rcases recordsTell_or_corrupt hdir (dir.length + 1) 0 (Nat.zero_le _) hfuel with
    ⟨entries, htell⟩ | ⟨c, hc⟩
  · obtain ⟨entry, -, htells⟩ := htell.exists_mem hreached
    exact absurd hfails (htells.not_recordFails hdir)
  · exact ⟨c, hc []⟩

end FleetAgent.Archive
