/-
# How wide a descriptor is taken to be

A data descriptor holds both sizes of its entry, in 64 bits each if one of them does not fit 32.
The header of such an entry tells no sizes, so the reader takes the width from the record of the
directory, and there it looks at the stored size alone.  An archive whose entries with a descriptor
follow the rule (`Streamed`) is therefore walked as it has been written, and the payload found,
unless there is an entry of which the size before compression is wide while the stored one is
narrow (`Skippable`).

A descriptor need not begin with a signature, and nothing else tells whether it does.  One without
a signature is taken for one with a signature if its checksum happens to be that number.
-/
import FleetAgent.Proofs.Update.Laid

namespace FleetAgent.Update.Payload

open FleetAgent.Archive

/-- A record tells the name and the stored size of a piece, and its descriptor is wide exactly if
one of the sizes of the record is. -/
structure Follows (archive : List UInt8) (r : Record) (p : Piece) : Prop where
  name_eq : r.name = nameAt archive p.position
  stored_eq : r.stored = p.stored
  wide_iff : p.wide = true ↔ isWideSize r.plain = true ∨ isWideSize r.stored = true

/-- An archive whose entries with a descriptor tell no sizes in their headers, and follow the rule
for wide sizes in the directory and in their descriptors.  Names are unique. -/
structure Streamed (archive : List UInt8) (ps : List Piece) (rs : List Record) : Prop extends
    Written archive ps rs where
  names : (ps.map fun p => titleAt archive p.position).Nodup
  titles : (rs.map Record.title).Nodup
  zero : ∀ p ∈ ps, p.isDescribed archive = true →
    numberAt archive (p.position + 18) 4 = 0 ∧ numberAt archive (p.position + 22) 4 = 0
  recorded : ∀ p ∈ ps, p.isDescribed archive = true → ∃ r ∈ rs, Follows archive r p

/-- If the record of a piece tells a wide size before compression, it tells a wide stored size, and
a descriptor without a signature does not begin like one with a signature. -/
structure Skippable (archive : List UInt8) (rs : List Record) (p : Piece) : Prop where
  width : ∀ r ∈ rs, r.name = nameAt archive p.position →
    isWideSize r.plain = true → isWideSize r.stored = true
  unsigned : p.signed = false → numberAt archive (p.dataStop archive) 4 ≠ descriptorSignature

namespace Streamed

variable {archive : List UInt8} {ps : List Piece} {rs : List Record} {p : Piece} {r : Record}

lemma not_isSaturatedAt (h : Streamed archive ps rs) (hp : p ∈ ps)
    (hdescribed : p.isDescribed archive = true) : ¬ IsSaturatedAt archive p.position := by
  obtain ⟨hstored, hplain⟩ := h.zero p hp hdescribed
  rw [IsSaturatedAt, hstored, hplain]
  decide

/-- The record of an entry with a descriptor is the last one with its title. -/
lemma exists_last (h : Streamed archive ps rs) (hp : p ∈ ps)
    (hdescribed : p.isDescribed archive = true) : ∃ r, IsLastTitled rs r ∧
      r.title = titleAt archive p.position ∧ r.stored = p.stored := by
  obtain ⟨r, hr, hfollows⟩ := h.recorded p hp hdescribed
  refine ⟨r, isLastTitled_of_nodup h.titles hr, ?_, hfollows.stored_eq⟩
  rw [Record.title, hfollows.name_eq, titleAt]

/-- The descriptor is clear if and only if the entry can be skipped. -/
lemma isClear_iff (h : Streamed archive ps rs) (hp : p ∈ ps)
    (hdescribed : p.isDescribed archive = true) :
    p.IsClear archive ↔ Skippable archive rs p := by
  obtain ⟨r, hr, hfollows⟩ := h.recorded p hp hdescribed
  have hnarrow := h.not_isSaturatedAt hp hdescribed
  -- the record with the name of the entry is the only one
  have hunique : ∀ q ∈ rs, q.name = nameAt archive p.position → q = r := by
    intro q hq hname
    refine List.inj_on_of_nodup_map h.titles hq hr ?_
    rw [Record.title, Record.title, hname, hfollows.name_eq]
  constructor
  · intro hclear
    refine ⟨fun q hq hname hplain => ?_, hclear.unsigned⟩
    obtain rfl := hunique q hq hname
    rw [hfollows.stored_eq]
    exact (hclear.width.mp (hfollows.wide_iff.mpr (.inl hplain))).resolve_left hnarrow
  · intro hskip
    refine ⟨⟨fun hwide => .inr ?_, fun hcase => ?_⟩, hskip.unsigned⟩
    · rw [← hfollows.stored_eq]
      rcases hfollows.wide_iff.mp hwide with hplain | hstored
      · exact hskip.width r hr hfollows.name_eq hplain
      · exact hstored
    · rw [← hfollows.stored_eq] at hcase
      exact hfollows.wide_iff.mpr (.inr (hcase.resolve_left hnarrow))

/-- An entry that can be skipped is read as it has been written. -/
lemma isRead_of_skippable (h : Streamed archive ps rs) (hp : p ∈ ps)
    (hskip : p.isDescribed archive = true → Skippable archive rs p) :
    p.IsRead archive (Directory.ofArchive archive) :=
  h.isRead hp fun hdescribed =>
    ⟨(h.isClear_iff hp hdescribed).mpr (hskip hdescribed), h.exists_last hp hdescribed⟩

end Streamed

/-! ## An entry that is small where it is stored -/

/-- An archive with an entry of one byte, whose size before compression is given, in front of the
payload. -/
def packed (plain : Nat) : List UInt8 :=
  archiveOf [⟨[0x61], [], [7], deflatedMethod, plain, 0, .descriptor true, [], []⟩,
    .stored (Text.Utf8.encode payloadName) [1, 2, 3]]

/-- The entries of `packed`. -/
def packedPieces (plain : Nat) : List Piece :=
  [⟨0, 1, isWideSize plain, true⟩, ⟨if isWideSize plain then 56 else 48, 3, false, false⟩]

/-- The records of `packed`. -/
def packedRecords (plain : Nat) : List Record :=
  [⟨[0x61], wideBlock ([plain].filter isWideSize), 1, plain, 0⟩,
    ⟨Text.Utf8.encode payloadName, [], 3, 3, if isWideSize plain then 56 else 48⟩]

variable {plain : Nat}

lemma lists_packed (h : plain = 1 ∨ plain = 0x100000000) :
    Lists (packed plain) (packedRecords plain) := by
  rw [packedRecords]
  rcases h with rfl | rfl
  · refine ⟨92, 104, .narrow 196 (lastEnd?_eq_some_iff.mp ?_) ?_ ?_ ?_, ?_, .cons 0 _ _
      (Record.standsAt_of_wideBlock ?_) (.cons _ _ _ (Record.standsAt_of_wideBlock ?_)
        (.nil _ fun h => absurd h.1 ?_))⟩
    all_goals decide +kernel
  · refine ⟨100, 116, .narrow 216 (lastEnd?_eq_some_iff.mp ?_) ?_ ?_ ?_, ?_, .cons 0 _ _
      (Record.standsAt_of_wideBlock ?_) (.cons _ _ _ (Record.standsAt_of_wideBlock ?_)
        (.nil _ fun h => absurd h.1 ?_))⟩
    all_goals decide +kernel

lemma laid_packed (h : plain = 1 ∨ plain = 0x100000000) :
    ∃ stop, Laid (packed plain) 0 (packedPieces plain) stop ∧ ¬ BeginsAt (packed plain) stop := by
  rw [packedPieces]
  rcases h with rfl | rfl
  · refine ⟨92, .before 48 rfl (Piece.standsIn_of_narrow ?_) ?_
      (.before 92 rfl (Piece.standsIn_of_narrow ?_) ?_ (.nil 92)), fun h => absurd h.2 ?_⟩
    all_goals decide +kernel
  · refine ⟨100, .before 56 rfl (Piece.standsIn_of_narrow ?_) ?_
      (.before 100 rfl (Piece.standsIn_of_narrow ?_) ?_ (.nil 100)), fun h => absurd h.2 ?_⟩
    all_goals decide +kernel

lemma streamed_packed (h : plain = 1 ∨ plain = 0x100000000) :
    Streamed (packed plain) (packedPieces plain) (packedRecords plain) where
  file := by rcases h with rfl | rfl <;> decide +kernel
  laid := laid_packed h
  lists := lists_packed h
  names := by rcases h with rfl | rfl <;> decide +kernel
  titles := by rcases h with rfl | rfl <;> decide +kernel
  zero := by rcases h with rfl | rfl <;> decide +kernel
  recorded := by
    intro p hp hdescribed
    simp only [packedPieces, List.mem_cons, List.not_mem_nil, or_false] at hp
    rcases hp with rfl | rfl
    · refine ⟨_, List.mem_cons_self, ?_, rfl, ?_⟩
      · rcases h with rfl | rfl <;> decide +kernel
      · rcases h with rfl | rfl <;> decide
    · rcases h with rfl | rfl <;> exact absurd hdescribed (by decide +kernel)

lemma isWelcome_packed (h : plain = 1 ∨ plain = 0x100000000) :
    ∀ p ∈ packedPieces plain, IsWelcome (packed plain) p := by
  have hno : ∀ p ∈ packedPieces plain, titleAt (packed plain) p.position ≠ propertiesName := by
    rcases h with rfl | rfl <;> decide +kernel
  have hstored : ∀ p ∈ packedPieces plain, titleAt (packed plain) p.position = payloadName →
      numberAt (packed plain) (p.position + 8) 2 = storedMethod := by
    rcases h with rfl | rfl <;> decide +kernel
  exact fun p hp => ⟨hstored p hp, fun hname => absurd hname (hno p hp)⟩

/-! ## Main result -/

/-- **How far an entry with a descriptor is skipped.**  In an archive whose entries with a
descriptor follow the rule for wide sizes, every such entry is read with its true stored size.  The
position behind it is the one behind its data and its true descriptor if and only if a wide size
before compression comes with a wide stored size, and a descriptor without a signature does not
begin like one with a signature.  If this holds of all of them, the payload is found where it has
been written, provided that it is stored and that properties can be read. -/
theorem stop_eq_iff_skippable {archive : List UInt8} {ps : List Piece} {rs : List Record}
    (h : Streamed archive ps rs) :
    (∀ p ∈ ps, p.isDescribed archive = true →
      ∃ e, Entry.ofArchive archive (Directory.ofArchive archive) p.position = .ok e ∧
        e.dataOffset = dataAt archive p.position ∧ e.storedSize = p.stored ∧
        ∃ next, e.stop archive (e.dataOffset + e.storedSize) = .ok next ∧
          (next = p.stop archive ↔ Skippable archive rs p)) ∧
    ∀ path, (∀ p ∈ ps, p.isDescribed archive = true → Skippable archive rs p) →
      (∀ p ∈ ps, IsWelcome archive p) →
      ∀ p ∈ ps, titleAt archive p.position = payloadName →
        ∃ spec, specOf path archive = .ok spec ∧ spec.offset = dataAt archive p.position ∧
          spec.size = p.stored := by
  refine ⟨fun p hp hdescribed => ?_, fun path hskip hwelcome p hp hname => ?_⟩
  · have hstands := h.standsIn hp
    obtain ⟨last, hlast, htitle, hstored⟩ := h.exists_last hp hdescribed
    have hentry := h.ofArchive_described hp hdescribed hlast htitle
    rw [hstored] at hentry
    refine ⟨_, hentry, rfl, rfl, _, stop_eq h.file hstands.dataStop_le, ?_⟩
    rw [hstands.stop_eq_iff_isClear hdescribed _ rfl, h.isClear_iff hp hdescribed]
  · exact specOf_written path h.toWritten (fun q hq => h.isRead_of_skippable hq (hskip q hq))
      hwelcome hp hname h.names

/-- Behind an entry of one byte the payload is found, and behind one that has 2^32 bytes before
compression the walk goes astray. -/
theorem stop_eq_iff_skippable_sample :
    (∃ spec, specOf "/data/ota.zip" (packed 1) = .ok spec ∧ spec.offset = 89 ∧ spec.size = 3) ∧
      ∃ e next, Entry.ofArchive (packed 0x100000000) (Directory.ofArchive (packed 0x100000000)) 0
          = .ok e ∧ e.stop (packed 0x100000000) (e.dataOffset + e.storedSize) = .ok next ∧
        next ≠ 56 := by
  constructor
  · have hskip : ∀ p ∈ packedPieces 1, p.isDescribed (packed 1) = true →
        Skippable (packed 1) (packedRecords 1) p := by
      intro p hp hdescribed
      simp only [packedPieces, List.mem_cons, List.not_mem_nil, or_false] at hp
      rcases hp with rfl | rfl
      · exact ⟨by decide +kernel, nofun⟩
      · exact absurd hdescribed (by decide +kernel)
    obtain ⟨spec, hspec, hoffset, hsize⟩ := (stop_eq_iff_skippable (streamed_packed (.inl rfl))).2
      "/data/ota.zip" hskip (isWelcome_packed (.inl rfl)) ⟨48, 3, false, false⟩
      (List.mem_cons_of_mem _ List.mem_cons_self) (by decide +kernel)
    exact ⟨spec, hspec, hoffset.trans (by decide +kernel), hsize⟩
  · obtain ⟨e, he, -, -, next, hnext, hiff⟩ :=
      (stop_eq_iff_skippable (streamed_packed (.inr rfl))).1 ⟨0, 1, true, true⟩ List.mem_cons_self
        (by decide +kernel)
    refine ⟨e, next, he, hnext, fun hstop => ?_⟩
    have hskip := hiff.mp (hstop.trans (by decide +kernel))
    have hwide := hskip.width _ List.mem_cons_self (by decide +kernel)
    exact absurd (hwide (by decide)) (by decide)

/-- **A payload may be missed.**  Every descriptor of `packed` has its signature and the only wide
size stands in its extra field, but the payload behind the entry is not found. -/
theorem not_specOf_streamed :
    ¬∀ (path : String) (archive : List UInt8) (ps : List Piece) (rs : List Record),
      Streamed archive ps rs →
      (∀ r ∈ rs, r.extra = wideBlock ([r.plain, r.stored].filter isWideSize)) →
      (∀ p ∈ ps, p.isDescribed archive = true → p.signed = true) →
      (∀ p ∈ ps, IsWelcome archive p) →
      ∀ p ∈ ps, titleAt archive p.position = payloadName →
        ∃ spec, specOf path archive = .ok spec ∧ spec.offset = dataAt archive p.position := by
  intro h
  obtain ⟨spec, hspec, -⟩ := h "/data/ota.zip" _ _ _ (streamed_packed (.inr rfl))
    (by decide +kernel) (by decide +kernel) (isWelcome_packed (.inr rfl)) ⟨56, 3, false, false⟩
    (List.mem_cons_of_mem _ List.mem_cons_self) (by decide +kernel)
  have hmissed : specOf "/data/ota.zip" (packed 0x100000000) = .error .payloadNotFound := by
    decide +kernel
  rw [hmissed] at hspec
  cases hspec

end FleetAgent.Update.Payload
