/-
# A walk along the entries that have been written

`Laid archive pos ps stop` says that the pieces `ps` stand one behind the other in an archive, the
first at `pos` and with nothing behind the last but what begins at `stop`.  It is the layout that a
writer has in mind, and the walk passes its pieces as long as every one is read as it has been
written (`Laid.passes`): the proof is an induction on the layout, in which an entry stops at the end
of a piece and the next piece begins there.  So it visits them one after another (`walk_laid`).

The payload is found where it has been written, whatever the other entries are
(`specOf_written`).
-/
import FleetAgent.Proofs.Archive.Pieces
import FleetAgent.Proofs.Update.Passage

namespace FleetAgent.Update.Payload

open FleetAgent.Archive

/-- The pieces of an archive that stand one behind the other from one position to another. -/
inductive Laid (archive : List UInt8) : Nat → List Piece → Nat → Prop where
  | nil (pos : Nat) : Laid archive pos [] pos
  | cons (p : Piece) (ps : List Piece) (stop : Nat) (hstands : p.StandsIn archive)
      (hlater : Laid archive (p.stop archive) ps stop) : Laid archive p.position (p :: ps) stop

/-- What has been found once pieces have been visited. -/
def visits (archive : List UInt8) (ps : List Piece) (found : Found) : Except Failure Found :=
  ps.foldlM (fun found p => found.visit archive (p.entry archive)) found

/-- What keeps a reader from refusing a piece: the payload is stored, and the properties can be
read. -/
structure IsWelcome (archive : List UInt8) (p : Piece) : Prop where
  payload : titleAt archive p.position = payloadName →
    numberAt archive (p.position + 8) 2 = storedMethod
  properties : titleAt archive p.position = propertiesName →
    ∃ bytes, propertyBytes archive (p.entry archive) = .ok bytes

variable {archive : List UInt8} {directory : Except Failure Directory} {pos stop : Nat}
  {p : Piece} {ps : List Piece} {e : Entry} {found result : Found}

/-- The next piece stands where the first one stops. -/
lemma Laid.before (next : Nat) (hpos : p.position = pos) (hstands : p.StandsIn archive)
    (hnext : p.stop archive = next) (hlater : Laid archive next ps stop) :
    Laid archive pos (p :: ps) stop :=
  hpos ▸ .cons p ps stop hstands (hnext ▸ hlater)

lemma Laid.standsIn (h : Laid archive pos ps stop) (hp : p ∈ ps) : p.StandsIn archive := by
  induction h with
  | nil pos => cases hp
  | cons q ps stop hstands hlater ih =>
    rcases List.mem_cons.mp hp with rfl | hp
    · exact hstands
    · exact ih hp

lemma Laid.le_stop (h : Laid archive pos ps stop) : pos + headerLength * ps.length ≤ stop := by
  induction h with
  | nil pos => exact Nat.le_refl _
  | cons q ps stop hstands hlater ih =>
    have hle := Piece.lt_stop archive q
    rw [List.length_cons, Nat.mul_succ]
    omega

/-- If there are pieces, they end inside the archive. -/
lemma Laid.stop_le (h : Laid archive pos ps stop) : stop = pos ∨ stop ≤ archive.length := by
  induction h with
  | nil pos => exact .inl rfl
  | cons q ps stop hstands hlater ih =>
    rcases ih with rfl | hle
    · exact .inr hstands.inside
    · exact .inr hle

/-! ## Steps -/

/-- A step over a piece that is read goes on at its end. -/
lemma step_piece (hfile : archive.length < Numeral.signed64End) (hstands : p.StandsIn archive)
    (hread : p.IsRead archive directory) :
    step archive directory p.position found
      = (found.visit archive (p.entry archive)).map fun found => (p.stop archive, found) := by
  rw [step_of_ofArchive hfile hread.entry_eq hstands.dataStop_le, hread.descriptorSize_eq]
  rfl

/-! ## Walks -/

/-- The walk passes the pieces, if each of them is read as it has been written. -/
lemma Laid.passes (h : Laid archive pos ps stop) (hread : ∀ p ∈ ps, p.IsRead archive directory) :
    Passes archive directory pos (ps.map (·.entry archive)) stop := by
  induction h with
  | nil pos => exact .nil pos
  | cons p ps stop hstands hlater ih =>
    obtain ⟨hp, hps⟩ := List.forall_mem_cons.mp hread
    have hbegins : BeginsAt archive p.position := by
      refine ⟨?_, hstands.begins⟩
      have hle := hstands.dataAt_le
      rw [dataAt, headerLength] at hle
      omega
    refine .cons p.position _ _ stop hbegins hp.entry_eq hstands.dataStop_le ?_
    rw [hp.descriptorSize_eq]
    exact ih hps

lemma visits_eq_visitAll (archive : List UInt8) (ps : List Piece) (found : Found) :
    visits archive ps found = visitAll archive (ps.map (·.entry archive)) found :=
  List.foldlM_map.symm

/-- **The walk visits the pieces one after another**, if each of them is read as it has been
written. -/
theorem walk_laid (hfile : archive.length < Numeral.signed64End) (hlaid : Laid archive pos ps stop)
    (hread : ∀ p ∈ ps, p.IsRead archive directory) (hstop : entryBegins archive stop = .ok false) :
    ∀ fuel found, ps.length < fuel →
      walk archive directory fuel pos found = visits archive ps found := by
  intro fuel found hfuel
  obtain ⟨more, rfl⟩ : ∃ more, fuel = more + 1 + ps.length := ⟨fuel - 1 - ps.length, by omega⟩
  have hwalk := (hlaid.passes hread).walk_eq hfile (more + 1) found
  rw [List.length_map, walk_of_stop hstop] at hwalk
  rw [hwalk, visits_eq_visitAll]
  exact bind_pure _

/-- A search visits the pieces from the start of an archive to where no entry begins, if there are
any and all of them are read. -/
lemma find_laid (hfile : archive.length < Numeral.signed64End) (hlaid : Laid archive 0 ps stop)
    (hbehind : ¬ BeginsAt archive stop) (hps : ps ≠ [])
    (hread : ∀ p ∈ ps, p.IsRead archive (Directory.ofArchive archive)) :
    find archive = visits archive ps ⟨none, none⟩ := by
  rw [visits_eq_visitAll]
  exact (hlaid.passes hread).find_eq_visitAll hfile hbehind (mt List.map_eq_nil_iff.mp hps)

/-! ## Archives with a directory -/

/-- An archive of pieces, from its start to where no entry begins, with the records of its
directory. -/
structure Written (archive : List UInt8) (ps : List Piece) (rs : List Record) : Prop where
  file : archive.length < Numeral.signed64End
  laid : ∃ stop, Laid archive 0 ps stop ∧ ¬ BeginsAt archive stop
  lists : Lists archive rs

namespace Written

variable {rs : List Record} {last : Record}

lemma standsIn (h : Written archive ps rs) (hp : p ∈ ps) : p.StandsIn archive := by
  obtain ⟨stop, hlaid, -⟩ := h.laid
  exact hlaid.standsIn hp

/-- An entry with a descriptor is read with what the last record with its title tells. -/
lemma ofArchive_described (h : Written archive ps rs) (hp : p ∈ ps)
    (hdescribed : p.isDescribed archive = true) (hlast : IsLastTitled rs last)
    (htitle : last.title = titleAt archive p.position) :
    Entry.ofArchive archive (Directory.ofArchive archive) p.position
      = .ok (entryAt archive p.position
        ⟨last.stored, decide (IsSaturatedAt archive p.position) || isWideSize last.stored⟩) :=
  (h.standsIn hp).ofArchive_described h.file hdescribed (directory_of_lists h.file h.lists)
    (htitle ▸ sizes?_told hlast)

/-- An entry is read as it has been written if the last record with its title tells its size, and
its descriptor is clear. -/
lemma isRead (h : Written archive ps rs) (hp : p ∈ ps)
    (htells : p.isDescribed archive = true → p.IsClear archive ∧ ∃ last, IsLastTitled rs last ∧
      last.title = titleAt archive p.position ∧ last.stored = p.stored) :
    p.IsRead archive (Directory.ofArchive archive) := by
  cases hdescribed : p.isDescribed archive with
  | false => exact (h.standsIn hp).isRead_of_not_described h.file hdescribed
  | true =>
    obtain ⟨hclear, last, hlast, htitle, hstored⟩ := htells hdescribed
    have hentry := h.ofArchive_described hp hdescribed hlast htitle
    rw [hstored] at hentry
    exact (h.standsIn hp).isRead_of_described hdescribed hclear hentry

/-- The whole walk visits the pieces, if there are any and all of them are read. -/
lemma find_eq (h : Written archive ps rs) (hps : ps ≠ [])
    (hread : ∀ p ∈ ps, p.IsRead archive (Directory.ofArchive archive)) :
    find archive = visits archive ps ⟨none, none⟩ := by
  obtain ⟨stop, hlaid, hbehind⟩ := h.laid
  exact find_laid h.file hlaid hbehind hps hread

end Written

/-! ## What the pieces hold -/

lemma visits_cons (archive : List UInt8) (p : Piece) (ps : List Piece) (found : Found) :
    visits archive (p :: ps) found
      = found.visit archive (p.entry archive) >>= fun found => visits archive ps found := by
  rw [visits, List.foldlM_cons]
  rfl

lemma visit_of_isWelcome (h : IsWelcome archive p) (found : Found) :
    ∃ result, found.visit archive (p.entry archive) = .ok result := by
  by_cases hpayload : (p.entry archive).name = payloadName
  · have hmethod : (p.entry archive).method = storedMethod := h.payload hpayload
    exact ⟨_, by rw [Found.visit, if_pos hpayload, if_pos hmethod]; rfl⟩
  · by_cases hproperties : (p.entry archive).name = propertiesName
    · obtain ⟨bytes, hbytes⟩ := h.properties hproperties
      exact ⟨_, by rw [Found.visit, if_neg hpayload, if_pos hproperties, hbytes]; rfl⟩
    · exact ⟨found, by rw [Found.visit, if_neg hpayload, if_neg hproperties]; rfl⟩

/-- Welcome pieces are all visited. -/
lemma visits_of_isWelcome (h : ∀ p ∈ ps, IsWelcome archive p) (found : Found) :
    ∃ result, visits archive ps found = .ok result := by
  induction ps generalizing found with
  | nil => exact ⟨found, rfl⟩
  | cons p ps ih =>
    obtain ⟨visited, hvisited⟩ := visit_of_isWelcome (h p List.mem_cons_self) found
    obtain ⟨result, hresult⟩ := ih (fun q hq => h q (List.mem_cons_of_mem p hq)) visited
    exact ⟨result, by rw [visits_cons, hvisited]; exact hresult⟩

/-- Pieces with other names leave the payload alone. -/
lemma payload_visits (hother : ∀ p ∈ ps, titleAt archive p.position ≠ payloadName)
    (h : visits archive ps found = .ok result) : result.payload = found.payload := by
  induction ps generalizing found with
  | nil =>
    cases h
    rfl
  | cons p ps ih =>
    rw [visits_cons] at h
    obtain ⟨visited, hvisit, h⟩ := bind_eq_ok.mp h
    rw [ih (fun q hq => hother q (List.mem_cons_of_mem p hq)) h]
    obtain ⟨hpayload, -⟩ | ⟨-, -, bytes, -, rfl⟩ | ⟨-, -, rfl⟩ := visit_eq_ok hvisit
    · exact absurd hpayload (hother p List.mem_cons_self)
    · rfl
    · rfl

/-- The payload is the last piece with its name. -/
lemma payload_visits_append {before after : List Piece}
    (hp : titleAt archive p.position = payloadName)
    (hafter : ∀ q ∈ after, titleAt archive q.position ≠ payloadName)
    (h : visits archive (before ++ p :: after) found = .ok result) :
    result.payload = some (dataAt archive p.position, p.stored) := by
  rw [visits, List.foldlM_append] at h
  obtain ⟨early, -, h⟩ := bind_eq_ok.mp h
  change visits archive (p :: after) early = .ok result at h
  rw [visits_cons] at h
  obtain ⟨visited, hvisit, h⟩ := bind_eq_ok.mp h
  rw [payload_visits hafter h]
  obtain ⟨-, -, rfl⟩ | ⟨hother, -⟩ | ⟨hother, -⟩ := visit_eq_ok hvisit
  · rfl
  · exact absurd hp hother
  · exact absurd hp hother

/-- **The payload is found where it has been written**, behind pieces that are read as they have
been written. -/
theorem specOf_written (path : String) {rs : List Record} (h : Written archive ps rs)
    (hread : ∀ p ∈ ps, p.IsRead archive (Directory.ofArchive archive))
    (hwelcome : ∀ p ∈ ps, IsWelcome archive p) (hp : p ∈ ps)
    (hname : titleAt archive p.position = payloadName)
    (hunique : (ps.map fun p => titleAt archive p.position).Nodup) :
    ∃ spec, specOf path archive = .ok spec ∧ spec.offset = dataAt archive p.position ∧
      spec.size = p.stored := by
  obtain ⟨before, after, rfl⟩ := List.append_of_mem hp
  have hafter : ∀ q ∈ after, titleAt archive q.position ≠ payloadName := by
    intro q hq hsame
    rw [List.map_append, List.map_cons] at hunique
    have hnot := (List.nodup_cons.mp (List.nodup_append.mp hunique).2.1).1
    exact hnot (List.mem_map.mpr ⟨q, hq, hsame.trans hname.symm⟩)
  obtain ⟨found, hfound⟩ := visits_of_isWelcome hwelcome ⟨none, none⟩
  have hpayload := payload_visits_append hname hafter hfound
  rw [← h.find_eq (List.ne_nil_of_mem hp) hread] at hfound
  refine ⟨⟨"file://" ++ path, dataAt archive p.position, p.stored,
    found.properties.getD defaultProperties⟩, ?_, rfl, rfl⟩
  rw [specOf, hfound]
  simp only [hpayload]

end FleetAgent.Update.Payload
