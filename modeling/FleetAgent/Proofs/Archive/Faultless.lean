/-
# An archive is read without faults

The reader checks every sum, every access, the length of every buffer and the end of every loop,
and a check that fails is a fault.  In an archive that is shorter than 2^63 bytes there are none
(`Faultless`), whatever its bytes are: each sum is one of a position inside the archive and of some
numbers of 16 or 32 bits, each access lies behind a comparison with a length, and each loop goes on
by the length of a fixed part at least.

The lemmas follow the reader from its reads upwards.  For a loop the fuel is left free, and the
bound on it is the number of rounds that the loop takes at most.
-/
import FleetAgent.Proofs.Archive.EndRecord

namespace FleetAgent.Archive

/-- No check of the reader fails. -/
def Faultless {α : Type} (x : Except Failure α) : Prop :=
  ∀ f, x ≠ .error (.fault f)

section

variable {α β : Type} {x : Except Failure α} {f : α → Except Failure β} {a : α}

lemma faultless_ok (a : α) : Faultless (.ok a) := nofun

lemma faultless_corrupt (c : Corruption) : Faultless (.error (.corrupt c) : Except Failure α) :=
  nofun

/-- The second of two parts need only be without faults for what the first one gives. -/
lemma Faultless.bind (hx : Faultless x) (hf : ∀ a, x = .ok a → Faultless (f a)) :
    Faultless (x >>= f) := by
  cases x with
  | error e => exact fun fault h => hx fault (congrArg Except.error (Except.error.inj h))
  | ok a => exact hf a rfl

lemma Faultless.of_ok (hx : x = .ok a) (hf : Faultless (f a)) : Faultless (x >>= f) := by
  rw [hx]
  exact hf

end

variable {archive bs part extra dir tail : List UInt8} {start n limit pos i : Nat} {name : String}

lemma faultless_read (h : n ≤ limit) : Faultless (read bs start n limit) := by
  rw [read, if_neg (Nat.not_lt.mpr h)]
  split_ifs
  · exact fun f h => by cases h
  · split
    · exact faultless_ok _
    · exact faultless_corrupt _

lemma length_of_read (h : read bs start n limit = .ok part) : part.length = n := by
  obtain ⟨rfl, hlength⟩ := read_eq_ok h
  exact hlength

/-! ## Extra fields -/

/-- The search for the wide sizes ends within a round for every four bytes that are left. -/
lemma faultless_wideSizesFrom (hextra : extra.length < Numeral.signed64End) :
    ∀ fuel i, i ≤ extra.length → extra.length < i + 4 * fuel →
      Faultless (wideSizesFrom extra fuel i) := by
  intro fuel
  induction fuel with
  | zero => exact fun i hi hfuel => absurd hi (Nat.not_le.mpr hfuel)
  | succ fuel ih =>
    intro i hi hfuel
    rw [wideSizesFrom]
    refine .of_ok (add_eq_ok_of_near (by omega) hextra) ?_
    split_ifs with hroom
    · have hlen : numberAt extra (i + 2) 2 < 256 ^ 2 := numberAt_lt extra (i + 2) 2
      refine .of_ok (field_eq_numberAt (by omega)) (.of_ok (field_eq_numberAt (by omega))
        (.of_ok (add_eq_ok_of_near (by omega) hextra) ?_))
      split
      · exact faultless_ok _
      · next data hdata =>
        split_ifs with hid
        · exact faultless_ok _
        · -- the field does not overrun the block, so the next one begins inside
          have hnext : i + 4 + numberAt extra (i + 2) 2 ≤ extra.length := by
            have hlength := (slice?_eq_some hdata).2
            rcases Nat.eq_zero_or_pos (numberAt extra (i + 2) 2) with hzero | hpos
            · omega
            · exact le_of_length_bytesAt hlength hpos
          exact ih _ hnext (by omega)
    · exact faultless_ok _

lemma faultless_wideSize (hextra : extra.length < Numeral.signed64End) (index : Nat) :
    Faultless (wideSize name extra index) := by
  rw [wideSize]
  refine .bind (faultless_wideSizesFrom hextra _ 0 (Nat.zero_le _) (by omega)) fun sizes _ => ?_
  split
  · exact faultless_ok _
  · exact faultless_corrupt _

lemma faultless_headerSizes (hextra : extra.length < Numeral.signed64End)
    (compressed uncompressed : Nat) :
    Faultless (headerSizes name extra compressed uncompressed) := by
  rw [headerSizes]
  split_ifs
  · exact .bind (faultless_wideSize hextra 1) fun _ _ => faultless_ok _
  · exact faultless_ok _

/-! ## The directory -/

/-- A record is at least as long as its fixed part, and it lies inside the directory. -/
lemma directoryRecord_next {entry : String × Sizes} {next : Nat}
    (h : directoryRecord dir i = .ok (entry, next)) :
    i + recordLength ≤ next ∧ next ≤ dir.length := by
  obtain ⟨compressed, -, h⟩ := bind_eq_ok.mp h
  obtain ⟨uncompressed, -, h⟩ := bind_eq_ok.mp h
  obtain ⟨nameLength, -, h⟩ := bind_eq_ok.mp h
  obtain ⟨extraLength, -, h⟩ := bind_eq_ok.mp h
  obtain ⟨commentLength, -, h⟩ := bind_eq_ok.mp h
  obtain ⟨nameStart, hnameStart, h⟩ := bind_eq_ok.mp h
  obtain ⟨extraStart, hextraStart, h⟩ := bind_eq_ok.mp h
  obtain ⟨extraStop, hextraStop, h⟩ := bind_eq_ok.mp h
  obtain ⟨stop, hstop, h⟩ := bind_eq_ok.mp h
  obtain ⟨-, rfl⟩ := add_eq_ok_iff.mp hnameStart
  obtain ⟨-, rfl⟩ := add_eq_ok_iff.mp hextraStart
  obtain ⟨-, rfl⟩ := add_eq_ok_iff.mp hextraStop
  obtain ⟨-, rfl⟩ := add_eq_ok_iff.mp hstop
  split_ifs at h with hend
  split at h
  · obtain ⟨sizes, -, h⟩ := bind_eq_ok.mp h
    cases h
    omega
  · cases h

/-- The records are read within a round for every 46 bytes that are left. -/
lemma faultless_directoryFrom (hdir : dir.length < Numeral.signed64End) :
    ∀ fuel i done, i ≤ dir.length → dir.length < i + recordLength * fuel →
      Faultless (directoryFrom dir fuel i done) := by
  intro fuel i done hi hfuel
  rcases recordsTell_or_corrupt hdir fuel i hi hfuel with ⟨entries, htell⟩ | ⟨c, hc⟩
  · rw [htell.directoryFrom_eq hdir fuel done hi hfuel]
    exact faultless_ok _
  · rw [hc]
    exact faultless_corrupt _

lemma faultless_wideExtent (hi : i ≤ tail.length) : Faultless (wideExtent archive tail i) := by
  rw [wideExtent]
  split_ifs
  · exact faultless_corrupt _
  refine .of_ok (field_eq_numberAt (by omega)) ?_
  split_ifs
  · exact faultless_corrupt _
  refine .of_ok (field_eq_numberAt (by omega)) (.bind (faultless_read (Nat.le_refl _)) ?_)
  intro record hrecord
  have hlength : record.length = 56 := length_of_read hrecord
  refine .of_ok (field_eq_numberAt (by omega)) ?_
  split_ifs
  · exact faultless_corrupt _
  exact .of_ok (field_eq_numberAt (by omega))
    (.of_ok (field_eq_numberAt (by omega)) (faultless_ok _))

lemma faultless_directoryExtent (archive : List UInt8) : Faultless (directoryExtent archive) := by
  rw [directoryExtent]
  split_ifs
  · exact faultless_corrupt _
  refine .bind (faultless_read (Nat.min_le_left _ _)) fun tail _ => ?_
  split
  · exact faultless_corrupt _
  · next i hi =>
    have hroom := (lastEnd?_eq_some_iff.mp hi).1.1
    simp only [endLength] at hroom
    refine .of_ok (field_eq_numberAt (by omega)) (.of_ok (field_eq_numberAt (by omega)) ?_)
    split_ifs
    · exact faultless_ok _
    · exact faultless_wideExtent (by omega)

/-- The directory is read without faults. -/
lemma faultless_directory (hfile : archive.length < Numeral.signed64End) :
    Faultless (Directory.ofArchive archive) := by
  rw [Directory.ofArchive]
  refine .bind (faultless_directoryExtent archive) ?_
  rintro ⟨offset, size⟩ -
  dsimp only
  split_ifs with hend
  · exact faultless_corrupt _
  · refine .bind (faultless_read (by omega)) fun dir hdir => ?_
    have hlength : dir.length = size := length_of_read hdir
    exact faultless_directoryFrom (by omega) _ 0 [] (Nat.zero_le _)
      (by simp only [recordLength]; omega)

/-! ## Entries -/

variable {directory : Except Failure Directory} {e : Entry}

lemma faultless_entrySizes (hdirectory : Faultless directory) (described : Bool) (own : Sizes) :
    Faultless (entrySizes directory name described own) := by
  rw [entrySizes]
  split_ifs
  · refine .bind hdirectory fun d _ => ?_
    split
    · exact faultless_ok _
    · exact faultless_corrupt _
  · exact faultless_ok _

/-- The two parts of a block, of which the first has `n` bytes. -/
def cut (block : List UInt8) (n : Nat) : Except Failure (List UInt8 × List UInt8) :=
  if n ≤ block.length then .ok (block.take n, block.drop n) else .error (.fault .outOfBounds)

/-- The entry at a position, where the block of the name and the extra fields is cut with its bounds
checked. -/
def Entry.ofArchiveCut (archive : List UInt8) (directory : Except Failure Directory) (pos : Nat) :
    Except Failure Entry := do
  let header ← read archive pos headerLength headerLength
  let flags ← field header 6 2
  let method ← field header 8 2
  let compressed ← field header 18 4
  let uncompressed ← field header 22 4
  let nameLength ← field header 26 2
  let extraLength ← field header 28 2
  let nameStart ← add pos headerLength
  let nameExtra ← read archive nameStart (nameLength + extraLength) maxNameExtra
  let (nameBytes, extra) ← cut nameExtra nameLength
  let name := Text.Utf8.decodeLossy nameBytes
  let own ← headerSizes name extra compressed uncompressed
  let sizes ← entrySizes directory name (flags / 8 % 2 == 1) own
  let dataOffset ← add nameStart (nameLength + extraLength)
  return ⟨name, flags, method, dataOffset, sizes.stored, sizes.wide⟩

/-- The block is as long as the name and the extra fields together, so it can be cut. -/
lemma cut_read {m : Nat} {block : List UInt8} (h : read bs start (m + n) limit = .ok block) :
    cut block m = .ok (block.take m, block.drop m) :=
  if_pos (by rw [length_of_read h]; exact Nat.le_add_right m n)

lemma bind_congr_ok {ε α β : Type} {x : Except ε α} {f g : α → Except ε β}
    (h : ∀ a, x = .ok a → f a = g a) : (x >>= f) = (x >>= g) := by
  cases x with
  | error e => rfl
  | ok a => exact h a rfl

/-- **An entry is read with every access checked.** -/
theorem Entry.ofArchive_eq_cut (archive : List UInt8) (directory : Except Failure Directory)
    (pos : Nat) :
    Entry.ofArchive archive directory pos = Entry.ofArchiveCut archive directory pos := by
  rw [Entry.ofArchive, Entry.ofArchiveCut]
  -- up to the block both readers do the same
  iterate 8 refine bind_congr_ok fun _ _ => ?_
  refine bind_congr_ok fun block hblock => ?_
  rw [cut_read hblock]
  rfl

/-- An entry whose header begins inside the archive is read without faults. -/
lemma faultless_ofArchive (hfile : archive.length < Numeral.signed64End)
    (hpos : pos ≤ archive.length) (hdirectory : Faultless directory) :
    Faultless (Entry.ofArchive archive directory pos) := by
  rw [Entry.ofArchive]
  refine .bind (faultless_read (Nat.le_refl _)) fun header hheader => ?_
  have hlength : header.length = 30 := length_of_read hheader
  have hname := numberAt_lt header 26 2
  have hextra := numberAt_lt header 28 2
  refine .of_ok (field_eq_numberAt (by omega)) (.of_ok (field_eq_numberAt (by omega))
    (.of_ok (field_eq_numberAt (by omega)) (.of_ok (field_eq_numberAt (by omega))
    (.of_ok (field_eq_numberAt (by omega)) (.of_ok (field_eq_numberAt (by omega)) ?_)))))
  refine .of_ok (add_eq_ok_of_near (by simp only [headerLength]; omega) hfile)
    (.bind (faultless_read (by simp only [maxNameExtra]; omega)) fun block hblock => ?_)
  refine .bind (faultless_headerSizes ?_ _ _) fun own _ =>
    .bind (faultless_entrySizes hdirectory _ _) fun sizes _ =>
      .of_ok (add_eq_ok_of_near (by simp only [headerLength]; omega) hfile) (faultless_ok _)
  rw [List.length_drop, length_of_read hblock]
  simp only [Numeral.signed64End]
  omega

/-- The position behind an entry whose data ends inside the archive is computed without faults. -/
lemma faultless_stop (hfile : archive.length < Numeral.signed64End)
    (hinside : e.dataOffset + e.storedSize ≤ archive.length) :
    Faultless (e.stop archive (e.dataOffset + e.storedSize)) := by
  rw [stop_eq hfile hinside]
  exact faultless_ok _

end FleetAgent.Archive
