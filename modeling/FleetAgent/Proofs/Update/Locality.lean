/-
# What a walk depends on

A walk that ends looks at the entries it visits and at the four bytes behind the last of them.
`Walks` is the run of such a walk with all that it has read, and a search succeeds exactly if there
is a run from the start of the archive (`find_eq_ok_iff`).

An entry without a descriptor is read from its header alone.  So if a walk visits only such entries
and stops at the end of the front of an archive, it can be replayed on every archive with the same
front, as long as no entry begins behind it (`Walks.append`): the proof goes along the run, and each
step reads what lies in front of the position where the walk stops.  The length of the archive is
compared with positions in the front only, so it makes no difference, and the directory is never
looked at.
-/
import FleetAgent.Proofs.Archive.Beginning
import FleetAgent.Proofs.Update.Laid

namespace FleetAgent.Update.Payload

open FleetAgent.Archive

/-- A walk from a position, with what has been found before: the entries that it visits, the
position at which it stops, and what has been found then. -/
inductive Walks (archive : List UInt8) (directory : Except Failure Directory) :
    Nat → Found → List Entry → Nat → Found → Prop where
  | stop (pos : Nat) (found : Found) (hbegins : entryBegins archive pos = .ok false) :
      Walks archive directory pos found [] pos found
  | visit (pos : Nat) (found : Found) (e : Entry) (es : List Entry) (next : Nat)
      (visited : Found) (stop : Nat) (result : Found)
      (hbegins : entryBegins archive pos = .ok true)
      (hentry : Entry.ofArchive archive directory pos = .ok e)
      (hinside : e.dataOffset + e.storedSize ≤ archive.length)
      (hvisit : found.visit archive e = .ok visited)
      (hnext : e.stop archive (e.dataOffset + e.storedSize) = .ok next)
      (hlater : Walks archive directory next visited es stop result) :
      Walks archive directory pos found (e :: es) stop result

/-! ## Runs -/

section

variable {archive : List UInt8} {directory : Except Failure Directory} {pos next stop fuel : Nat}
  {found visited result : Found} {es : List Entry}

/-- A step reads an entry, looks where its data ends, visits it and goes on behind it. -/
lemma step_eq_ok_iff : step archive directory pos found = .ok (next, visited) ↔
    ∃ e, Entry.ofArchive archive directory pos = .ok e ∧
      e.dataOffset + e.storedSize ≤ archive.length ∧ found.visit archive e = .ok visited ∧
      e.stop archive (e.dataOffset + e.storedSize) = .ok next := by
  rw [step, bind_eq_ok]
  refine exists_congr fun e => and_congr_right fun _ => ?_
  dsimp only
  by_cases hinside : archive.length < e.dataOffset + e.storedSize
  · rw [if_pos hinside]
    exact iff_of_false (fun h => by cases h) fun h => Nat.not_le.mpr hinside h.1
  · rw [if_neg hinside, bind_eq_ok]
    constructor
    · rintro ⟨_, hvisit, h⟩
      obtain ⟨_, hnext, h⟩ := bind_eq_ok.mp h
      cases h
      exact ⟨Nat.not_lt.mp hinside, hvisit, hnext⟩
    · rintro ⟨-, hvisit, hnext⟩
      exact ⟨visited, hvisit, bind_eq_ok.mpr ⟨next, hnext, rfl⟩⟩

/-- Every walk that succeeds is a run. -/
lemma walks_of_walk (h : walk archive directory fuel pos found = .ok result) :
    ∃ es stop, Walks archive directory pos found es stop result := by
  induction fuel generalizing pos found with
  | zero => cases h
  | succ fuel ih =>
    obtain ⟨begins, hbegins, h⟩ := bind_eq_ok.mp h
    cases begins with
    | false =>
      cases h
      exact ⟨[], pos, .stop pos _ hbegins⟩
    | true =>
      obtain ⟨⟨next, visited⟩, hstep, h⟩ := bind_eq_ok.mp h
      obtain ⟨e, hentry, hinside, hvisit, hnext⟩ := step_eq_ok_iff.mp hstep
      obtain ⟨es, stop, hlater⟩ := ih h
      exact ⟨e :: es, stop, .visit pos found e es next visited stop result hbegins hentry hinside
        hvisit hnext hlater⟩

/-- A run is what the walk does, within a round for each entry and one more. -/
lemma Walks.walk_eq (h : Walks archive directory pos found es stop result) :
    ∀ fuel, es.length < fuel → walk archive directory fuel pos found = .ok result := by
  induction h with
  | stop pos found hbegins =>
    intro fuel hfuel
    obtain ⟨fuel, rfl⟩ : ∃ m, fuel = m + 1 := ⟨fuel - 1, by omega⟩
    rw [walk, hbegins]
    rfl
  | visit pos found e es next visited stop result hbegins hentry hinside hvisit hnext hlater ih =>
    intro fuel hfuel
    obtain ⟨fuel, rfl⟩ : ∃ m, fuel = m + 1 := ⟨fuel - 1, by omega⟩
    have hstep := step_eq_ok_iff.mpr ⟨e, hentry, hinside, hvisit, hnext⟩
    have hrest := ih fuel (by simp only [List.length_cons] at hfuel; omega)
    rw [walk, hbegins]
    simpa only [bind, Except.bind, if_true, hstep] using hrest

/-- The walk goes on by the length of a header at least. -/
lemma Walks.le_stop (h : Walks archive directory pos found es stop result) :
    pos + headerLength * es.length ≤ stop := by
  induction h with
  | stop pos found hbegins => exact Nat.le_refl _
  | visit pos found e es next visited stop result hbegins hentry hinside hvisit hnext hlater ih =>
    have hle := (step_next (step_eq_ok_iff.mpr ⟨e, hentry, hinside, hvisit, hnext⟩)).1
    rw [List.length_cons, Nat.mul_succ]
    omega

/-- The walk does not stop far behind the archive. -/
lemma Walks.stop_le (h : Walks archive directory pos found es stop result)
    (hpos : pos ≤ archive.length + 24) : stop ≤ archive.length + 24 := by
  induction h with
  | stop pos found hbegins => exact hpos
  | visit pos found e es next visited stop result hbegins hentry hinside hvisit hnext hlater ih =>
    exact ih (step_next (step_eq_ok_iff.mpr ⟨e, hentry, hinside, hvisit, hnext⟩)).2

end

/-- **A search succeeds exactly if there is a run from the start of the archive.** -/
theorem find_eq_ok_iff {archive : List UInt8} {found : Found} :
    find archive = .ok found ↔
      ∃ es stop, Walks archive (Directory.ofArchive archive) 0 ⟨none, none⟩ es stop found := by
  refine ⟨walks_of_walk, ?_⟩
  rintro ⟨es, stop, hwalks⟩
  have hle := hwalks.le_stop
  have hend := hwalks.stop_le (Nat.zero_le _)
  simp only [headerLength] at hle
  exact hwalks.walk_eq _ (by omega)

/-! ## Reads in the front of an archive -/

section

variable {front : List UInt8} (tail : List UInt8) {pos : Nat} {e : Entry}

lemma entryBegins_append (h : pos + 4 ≤ front.length) :
    entryBegins (front ++ tail) pos = entryBegins front pos := by
  have hread : read32 (front ++ tail) pos = read32 front pos := by
    rw [read32, read32, read_append tail h]
  rw [entryBegins, entryBegins, hread]
  refine bind_congr_ok fun stop hstop => ?_
  obtain ⟨-, rfl⟩ := add_eq_ok_iff.mp hstop
  rw [if_neg (Nat.not_lt.mpr h), if_neg (by rw [List.length_append]; omega)]

/-- Right behind the front it is the tail that tells whether an entry begins. -/
lemma entryBegins_length_append (hfile : front.length < Numeral.signed64End)
    (hpos : 0 < front.length) (htail : tail.length < 4 ∨ numberAt tail 0 4 ≠ entrySignature) :
    entryBegins (front ++ tail) front.length = .ok false := by
  have hadd : add front.length 4 = .ok (front.length + 4) :=
    add_eq_ok_of_near (Nat.add_le_add_left (by decide) _) hfile
  rw [entryBegins, hadd]
  by_cases hroom : tail.length < 4
  · simp [hroom, bind, Except.bind, pure, Except.pure]
  · have hother := htail.resolve_left hroom
    have hread : read32 (front ++ tail) front.length = .ok (numberAt tail 0 4) := by
      rw [read32_eq_numberAt (by rw [List.length_append]; omega) hfile]
      exact congrArg _ (numberAt_append_right front tail 0 4)
    simp [hroom, hread, hother, Nat.ne_of_gt hpos, bind, Except.bind, pure, Except.pure]

/-- An entry whose data lies in the front is visited with what the front holds. -/
lemma visit_append (h : e.dataOffset + e.storedSize ≤ front.length) (found : Found) :
    found.visit (front ++ tail) e = found.visit front e := by
  have hbytes : propertyBytes (front ++ tail) e = propertyBytes front e := by
    rw [propertyBytes, propertyBytes, read_append tail h]
  rw [Found.visit, Found.visit, hbytes]

/-- Pieces that are laid in the front are laid in the whole archive. -/
lemma Laid.append {ps : List Piece} {stop : Nat} (h : Laid front pos ps stop) :
    Laid (front ++ tail) pos ps stop := by
  induction h with
  | nil pos => exact .nil pos
  | cons p ps stop hstands hlater ih =>
    exact .before _ rfl (hstands.append tail) (hstands.stop_append tail) ih

/-- What pieces hold is told by the front in which they stand. -/
lemma visits_append {ps : List Piece} (h : ∀ p ∈ ps, p.StandsIn front) (found : Found) :
    visits (front ++ tail) ps found = visits front ps found := by
  induction ps generalizing found with
  | nil => rfl
  | cons p ps ih =>
    have hstands := h p List.mem_cons_self
    have hvisit := visit_append tail (e := p.entry front) hstands.dataStop_le found
    rw [visits_cons, visits_cons, hstands.entry_append, hvisit]
    exact bind_congr_ok fun visited _ => ih (fun q hq => h q (List.mem_cons_of_mem p hq)) visited

end

/-! ## Runs in the front of an archive -/

section

variable {front tail : List UInt8} {directory : Except Failure Directory} {pos next stop : Nat}
  {e : Entry} {es : List Entry} {found result : Found}

lemma stop_of_not_hasDescriptor (archive : List UInt8) (hplain : e.hasDescriptor = false)
    (n : Nat) : e.stop archive n = .ok n := by
  rw [Entry.stop, hplain]
  rfl

/-- **A run over entries without descriptors depends on the front of the archive alone**, if it
stops where the front ends. -/
theorem Walks.append (h : Walks (front ++ tail) directory pos found es stop result)
    (hstop : stop = front.length) (hplain : ∀ e ∈ es, e.hasDescriptor = false)
    (tail' : List UInt8) (hend : entryBegins (front ++ tail') front.length = .ok false)
    (directory' : Except Failure Directory) :
    Walks (front ++ tail') directory' pos found es stop result := by
  induction h with
  | stop pos found hbegins => exact .stop pos found (hstop ▸ hend)
  | visit pos found e es next visited stop result hbegins hentry hinside hvisit hnext hlater ih =>
    have hcase := hplain e List.mem_cons_self
    -- the entry ends where the walk goes on, and the walk does not go back
    have hle : e.dataOffset + e.storedSize ≤ front.length := by
      rw [stop_of_not_hasDescriptor _ hcase] at hnext
      have hlater := hlater.le_stop
      cases hnext
      omega
    have hdata : e.dataOffset = dataAt (front ++ tail) pos := by
      rw [(standsAt_of_ofArchive hentry).dataOffset_eq, dataAt, Nat.add_assoc (pos + headerLength)]
    have hheader : pos + headerLength ≤ front.length := by
      rw [hdata, dataAt] at hle
      omega
    have hfront : dataAt front pos ≤ front.length := by
      rw [← dataAt_append tail hheader, ← hdata]
      omega
    refine .visit pos found e es next visited stop result ?_ ?_ ?_ ?_ ?_
      (ih hstop fun e he => hplain e (List.mem_cons_of_mem _ he))
    · simp only [headerLength] at hheader
      rwa [entryBegins_append tail' (by omega), ← entryBegins_append tail (by omega)]
    · have hnone : isDescribedAt (front ++ tail') pos = false := by
        rwa [isDescribedAt_append tail' hheader, ← isDescribedAt_append tail hheader,
          ← hasDescriptor_of_ofArchive hentry]
      rw [ofArchive_append tail hfront, ← ofArchive_append tail' hfront] at hentry
      exact ofArchive_of_tells hentry fun hdescribed =>
        absurd (hnone.symm.trans hdescribed) Bool.false_ne_true
    · rw [List.length_append]
      exact Nat.le_add_right_of_le hle
    · rwa [visit_append tail' hle, ← visit_append tail hle]
    · rwa [stop_of_not_hasDescriptor _ hcase, ← stop_of_not_hasDescriptor (front ++ tail) hcase]

end

/-! ## Main result -/

/-- **What stands behind the last entry does not matter.**  If the walk over an archive visits some
entries, none of which has a descriptor, and stops where the front of the archive ends, then the
same is found in every archive with the same front, provided that no entry begins behind it: the
same payload with the same properties, or none.  The walk visits the same entries with every
directory, or with none.  A file has fewer than `Numeral.signed64End` bytes; farther places cannot
be read. -/
theorem specOf_append (path : String) {front tail : List UInt8} {es : List Entry} {found : Found}
    (hfile : front.length < Numeral.signed64End)
    (hwalks : Walks (front ++ tail) (Directory.ofArchive (front ++ tail)) 0 ⟨none, none⟩ es
      front.length found)
    (hes : es ≠ []) (hplain : ∀ e ∈ es, e.hasDescriptor = false) (tail' : List UInt8)
    (htail : tail'.length < 4 ∨ numberAt tail' 0 4 ≠ entrySignature) :
    specOf path (front ++ tail') = specOf path (front ++ tail) ∧
      find (front ++ tail') = .ok found ∧
      ∀ directory, Walks (front ++ tail') directory 0 ⟨none, none⟩ es front.length found := by
  have hpos : 0 < front.length := by
    have hle := hwalks.le_stop
    have hlength := List.length_pos_iff.mpr hes
    simp only [headerLength] at hle
    omega
  have hreplay := hwalks.append rfl hplain tail' (entryBegins_length_append tail' hfile hpos htail)
  have hfind := find_eq_ok_iff.mpr ⟨es, _, hwalks⟩
  have hfind' := find_eq_ok_iff.mpr ⟨es, _, hreplay (Directory.ofArchive (front ++ tail'))⟩
  exact ⟨by rw [specOf, specOf, hfind, hfind'], hfind', hreplay⟩

/-- An archive that is cut off behind its payload. -/
def loneEntry : List UInt8 :=
  [0x50, 0x4b, 3, 4, 20, 0, 0, 0, 0, 0, 0, 0, 0, 0, 0, 0, 0, 0, 3, 0, 0, 0, 3, 0, 0, 0, 11, 0, 0, 0]
    ++ Text.Utf8.encode payloadName ++ [1, 2, 3]

/-- A payload is found whatever begins behind it like a record of a directory. -/
theorem specOf_append_sample :
    specOf "/data/ota.zip" (loneEntry ++ [0x50, 0x4b, 1, 2, 0xff])
      = .ok ⟨"file:///data/ota.zip", 41, 3, defaultProperties⟩ := by
  have hwalks : Walks (loneEntry ++ []) (Directory.ofArchive (loneEntry ++ [])) 0 ⟨none, none⟩
      [⟨payloadName, 0, 0, 41, 3, false⟩] loneEntry.length ⟨some (41, 3), none⟩ :=
    .visit 0 _ _ [] 44 _ 44 _ (by decide +kernel) (by decide +kernel) (by decide +kernel)
      (by decide +kernel) (by decide +kernel) (.stop 44 _ (by decide +kernel))
  rw [(specOf_append "/data/ota.zip" (by decide +kernel) hwalks nofun (by decide +kernel)
    [0x50, 0x4b, 1, 2, 0xff] (.inr (by decide +kernel))).1]
  decide +kernel

end FleetAgent.Update.Payload
