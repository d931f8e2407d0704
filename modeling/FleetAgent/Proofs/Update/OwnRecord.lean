/-
# The record that an entry gets its size from

The directory has one record for each entry, which points to its header (`Indexed`).  The reader
does not look at where a record points: it takes the stored size of an entry with a descriptor from
the last record with the same title.  This is the entry's own size exactly if that record tells it
(`TellsOwn`), and then the walk goes on right behind the entry.

Titles are texts.  Names that are not well-formed are told apart by their bytes, but their titles
may be one, and so one of the entries is taken for as long as the other (`twins`).
-/
import FleetAgent.Proofs.Update.Laid

namespace FleetAgent.Update.Payload

open FleetAgent.Archive

/-- A record is the one of a piece: it points to its header, and it tells the bytes of its name and
its stored size. -/
structure IsOwn (archive : List UInt8) (r : Record) (p : Piece) : Prop where
  offset_eq : r.offset = p.position
  name_eq : r.name = nameAt archive p.position
  stored_eq : r.stored = p.stored

/-- An archive whose directory has exactly one record for each entry, in any order. -/
structure Indexed (archive : List UInt8) (ps : List Piece) (rs : List Record) : Prop extends
    Written archive ps rs where
  recorded : ∀ p ∈ ps, ∃ r ∈ rs, IsOwn archive r p
  owned : ∀ r ∈ rs, ∃ p ∈ ps, IsOwn archive r p
  offsets : (rs.map Record.offset).Nodup

/-- The last record with the title of a piece tells the stored size of the piece. -/
def TellsOwn (archive : List UInt8) (rs : List Record) (p : Piece) : Prop :=
  ∀ last, IsLastTitled rs last → last.title = titleAt archive p.position → last.stored = p.stored

variable {archive : List UInt8} {ps : List Piece} {rs : List Record} {p : Piece} {r last : Record}

lemma IsOwn.title_eq (h : IsOwn archive r p) : r.title = titleAt archive p.position := by
  rw [Record.title, h.name_eq, titleAt]

namespace Indexed

/-- The record that points to an entry is its own. -/
lemma isOwn_of_offset (h : Indexed archive ps rs) (hp : p ∈ ps) (hr : r ∈ rs)
    (hoffset : r.offset = p.position) : IsOwn archive r p := by
  obtain ⟨own, hown, hp⟩ := h.recorded p hp
  rwa [List.inj_on_of_nodup_map h.offsets hown hr (hp.offset_eq.trans hoffset.symm)] at hp

/-- The title of an entry has a last record. -/
lemma exists_last (h : Indexed archive ps rs) (hp : p ∈ ps) :
    ∃ last, IsLastTitled rs last ∧ last.title = titleAt archive p.position := by
  obtain ⟨r, hr, hown⟩ := h.recorded p hp
  rw [← hown.title_eq]
  exact exists_isLastTitled hr

/-- An entry is read as it has been written if its own size is told, and its descriptor is
clear. -/
lemma isRead_of_tellsOwn (h : Indexed archive ps rs) (hp : p ∈ ps)
    (htells : p.isDescribed archive = true → TellsOwn archive rs p ∧ p.IsClear archive) :
    p.IsRead archive (Directory.ofArchive archive) := by
  refine h.isRead hp fun hdescribed => ?_
  obtain ⟨htells, hclear⟩ := htells hdescribed
  obtain ⟨last, hlast, htitle⟩ := h.exists_last hp
  exact ⟨hclear, last, hlast, htitle, htells last hlast htitle⟩

end Indexed

/-! ## Two names with one title -/

/-- An archive with two entries whose names are not well-formed, the second with data of the given
length, in front of the payload. -/
def twins (n : Nat) : List UInt8 :=
  archiveOf [⟨[0xFF], [], [7], storedMethod, 1, 0, .descriptor true, [], []⟩,
    ⟨[0xFE], [], List.replicate n 7, storedMethod, n, 0, .descriptor true, [], []⟩,
    .stored (Text.Utf8.encode payloadName) [1, 2, 3]]

/-- The entries of `twins`. -/
def twinPieces (n : Nat) : List Piece :=
  [⟨0, 1, false, true⟩, ⟨48, n, false, true⟩, ⟨95 + n, 3, false, false⟩]

/-- The records of `twins`. -/
def twinRecords (n : Nat) : List Record :=
  [⟨[0xFF], [], 1, 1, 0⟩, ⟨[0xFE], [], n, n, 48⟩,
    ⟨Text.Utf8.encode payloadName, [], 3, 3, 95 + n⟩]

variable {n : Nat}

lemma lists_twins (h : n = 1 ∨ n = 2) : Lists (twins n) (twinRecords n) := by
  rw [twinRecords]
  refine ⟨139 + n, 151, .narrow (290 + n) (lastEnd?_eq_some_iff.mp ?_) ?_ ?_ ?_, ?_, .cons 0 _ _
    (Record.standsAt_of_wideBlock ?_) (.cons _ _ _ (Record.standsAt_of_wideBlock ?_)
      (.cons _ _ _ (Record.standsAt_of_wideBlock ?_) (.nil _ fun hmore => absurd hmore.1 ?_)))⟩
  all_goals rcases h with rfl | rfl <;> decide +kernel

lemma laid_twins (h : n = 1 ∨ n = 2) :
    ∃ stop, Laid (twins n) 0 (twinPieces n) stop ∧ ¬ BeginsAt (twins n) stop := by
  rw [twinPieces]
  refine ⟨139 + n, .before 48 rfl (Piece.standsIn_of_narrow ?_) ?_
    (.before (95 + n) rfl (Piece.standsIn_of_narrow ?_) ?_
      (.before (139 + n) rfl (Piece.standsIn_of_narrow ?_) ?_ (.nil _))),
    fun hmore => absurd hmore.2 ?_⟩
  all_goals rcases h with rfl | rfl <;> decide +kernel

lemma indexed_twins (h : n = 1 ∨ n = 2) : Indexed (twins n) (twinPieces n) (twinRecords n) := by
  have hfirst : IsOwn (twins n) ⟨[0xFF], [], 1, 1, 0⟩ ⟨0, 1, false, true⟩ :=
    ⟨rfl, by rcases h with rfl | rfl <;> decide +kernel, rfl⟩
  have hsecond : IsOwn (twins n) ⟨[0xFE], [], n, n, 48⟩ ⟨48, n, false, true⟩ :=
    ⟨rfl, by rcases h with rfl | rfl <;> decide +kernel, rfl⟩
  have hthird : IsOwn (twins n) ⟨Text.Utf8.encode payloadName, [], 3, 3, 95 + n⟩
      ⟨95 + n, 3, false, false⟩ :=
    ⟨rfl, by rcases h with rfl | rfl <;> decide +kernel, rfl⟩
  refine ⟨⟨by rcases h with rfl | rfl <;> decide +kernel, laid_twins h, lists_twins h⟩, ?_, ?_,
    by rcases h with rfl | rfl <;> decide⟩
  · intro p hp
    simp only [twinPieces, List.mem_cons, List.not_mem_nil, or_false] at hp
    rcases hp with rfl | rfl | rfl
    · exact ⟨_, by simp [twinRecords], hfirst⟩
    · exact ⟨_, by simp [twinRecords], hsecond⟩
    · exact ⟨_, by simp [twinRecords], hthird⟩
  · intro r hr
    simp only [twinRecords, List.mem_cons, List.not_mem_nil, or_false] at hr
    rcases hr with rfl | rfl | rfl
    · exact ⟨_, by simp [twinPieces], hfirst⟩
    · exact ⟨_, by simp [twinPieces], hsecond⟩
    · exact ⟨_, by simp [twinPieces], hthird⟩

/-- Both of the names have one title, and the second record is the last one with it. -/
lemma tellsOwn_twins {p : Piece} (htitle : titleAt (twins n) p.position = "\uFFFD") :
    TellsOwn (twins n) (twinRecords n) p ↔ n = p.stored := by
  have hlast : IsLastTitled (twinRecords n) ⟨[0xFE], [], n, n, 48⟩ := by
    refine ⟨[⟨[0xFF], [], 1, 1, 0⟩], [⟨Text.Utf8.encode payloadName, [], 3, 3, 95 + n⟩], rfl, ?_⟩
    intro r hr
    obtain rfl := List.mem_singleton.mp hr
    change Text.Utf8.decodeLossy (Text.Utf8.encode payloadName) ≠ Text.Utf8.decodeLossy [0xFE]
    decide +kernel
  have hsame : Record.title ⟨[0xFE], [], n, n, 48⟩ = titleAt (twins n) p.position := by
    rw [htitle]
    change Text.Utf8.decodeLossy [0xFE] = _
    decide +kernel
  refine ⟨fun h => h _ hlast hsame, fun h last hother htitle => ?_⟩
  exact (hother.stored_eq hlast (htitle.trans hsame.symm)).trans h

/-! ## Main result -/

/-- **Where the size of an entry comes from.**  In an archive with one record for each entry, every
entry with a descriptor is read, and its stored size is the one in the record that points to it if
and only if the last record with the same title tells the same size.  If so, and if the descriptor
can be seen for what it is, a step visits the entry as it has been written and goes on right behind
its data and its descriptor; if this holds of all entries with a descriptor, the walk visits every
entry. -/
theorem storedSize_eq_own_iff (h : Indexed archive ps rs) :
    (∀ p ∈ ps, p.isDescribed archive = true → (∃ r ∈ rs, r.offset = p.position) ∧
      ∀ r ∈ rs, r.offset = p.position →
        ∃ e, Entry.ofArchive archive (Directory.ofArchive archive) p.position = .ok e ∧
          (e.storedSize = r.stored ↔ TellsOwn archive rs p)) ∧
    (∀ p ∈ ps, (p.isDescribed archive = true → TellsOwn archive rs p ∧ p.IsClear archive) →
      ∀ found, step archive (Directory.ofArchive archive) p.position found
        = (found.visit archive (p.entry archive)).map fun found => (p.stop archive, found)) ∧
    (ps ≠ [] →
      (∀ p ∈ ps, p.isDescribed archive = true → TellsOwn archive rs p ∧ p.IsClear archive) →
      find archive = visits archive ps ⟨none, none⟩) := by
  refine ⟨fun p hp hdescribed => ⟨?_, fun r hr hoffset => ?_⟩, fun p hp htells found => ?_,
    fun hps htells => ?_⟩
  · obtain ⟨r, hr, hown⟩ := h.recorded p hp
    exact ⟨r, hr, hown.offset_eq⟩
  · obtain ⟨last, hlast, htitle⟩ := h.exists_last hp
    refine ⟨_, h.ofArchive_described hp hdescribed hlast htitle, ?_⟩
    rw [(h.isOwn_of_offset hp hr hoffset).stored_eq]
    refine ⟨fun hsize other hother hsame => ?_, fun htells => htells last hlast htitle⟩
    -- the last record with a title is one and the same
    rw [← hsize, ← hother.stored_eq hlast (hsame.trans htitle.symm)]
    rfl
  · exact step_piece h.file (h.standsIn hp) (h.isRead_of_tellsOwn hp htells)
  · exact h.find_eq hps fun p hp => h.isRead_of_tellsOwn hp (htells p hp)

/-- Where the entries with one title have one byte each the walk visits all of them, and where the
second has two the first is not read with its own size. -/
theorem storedSize_eq_own_iff_sample :
    find (twins 1) = visits (twins 1) (twinPieces 1) ⟨none, none⟩ ∧
      ∃ e, Entry.ofArchive (twins 2) (Directory.ofArchive (twins 2)) 0 = .ok e ∧
        e.storedSize ≠ 1 := by
  constructor
  · refine (storedSize_eq_own_iff (indexed_twins (.inl rfl))).2.2 (by simp [twinPieces]) ?_
    intro p hp hdescribed
    simp only [twinPieces, List.mem_cons, List.not_mem_nil, or_false] at hp
    rcases hp with rfl | rfl | rfl
    · exact ⟨(tellsOwn_twins (by decide +kernel)).mpr rfl, by decide +kernel, nofun⟩
    · exact ⟨(tellsOwn_twins (by decide +kernel)).mpr rfl, by decide +kernel, nofun⟩
    · exact absurd hdescribed (by decide +kernel)
  · obtain ⟨e, he, hsize⟩ := ((storedSize_eq_own_iff (indexed_twins (.inr rfl))).1
      ⟨0, 1, false, true⟩ List.mem_cons_self (by decide +kernel)).2
      ⟨[0xFF], [], 1, 1, 0⟩ List.mem_cons_self rfl
    refine ⟨e, he, fun hown => ?_⟩
    exact absurd ((tellsOwn_twins (by decide +kernel)).mp (hsize.mp hown)) (by decide)

/-- **An entry may be read with the size of another one.**  The walk reaches the first entry of
`twins`, whose record tells one byte, and reads it with the two bytes of the second. -/
theorem not_storedSize_eq_own :
    ¬∀ (archive : List UInt8) (ps : List Piece) (rs : List Record), Indexed archive ps rs →
      ∀ p ∈ ps, p.isDescribed archive = true →
        (∃ es, Chain archive (Directory.ofArchive archive) 0 es p.position) →
        ∀ r ∈ rs, r.offset = p.position →
          ∀ e, Entry.ofArchive archive (Directory.ofArchive archive) p.position = .ok e →
            e.storedSize = r.stored := by
  intro h
  have hindexed := indexed_twins (.inr rfl)
  have hp : (⟨0, 1, false, true⟩ : Piece) ∈ twinPieces 2 := List.mem_cons_self
  have hdescribed : Piece.isDescribed ⟨0, 1, false, true⟩ (twins 2) = true := by decide +kernel
  obtain ⟨last, hlast, htitle⟩ := hindexed.exists_last hp
  have hentry := hindexed.ofArchive_described hp hdescribed hlast htitle
  have hown : last.stored = 1 := h _ _ _ hindexed _ hp hdescribed ⟨[], .nil 0⟩
    ⟨[0xFF], [], 1, 1, 0⟩ List.mem_cons_self rfl _ hentry
  -- all that is told of the title is one size
  have htells : TellsOwn (twins 2) (twinRecords 2) ⟨0, 1, false, true⟩ := fun other hother hsame =>
    (hother.stored_eq hlast (hsame.trans htitle.symm)).trans hown
  exact absurd ((tellsOwn_twins (by decide +kernel)).mp htells) (by decide)

end FleetAgent.Update.Payload
