/-
# Packages that are cut off

A download may break off, and what is left of a package is one of its fronts.  The walk over a front
visits the entries of the package up to the cut, or fails: where it succeeds, each entry that it has
visited is the one of the package, and every other entry begins so late that less than four bytes of
it are left (`find_take`).  This needs that the front has no directory which tells something else
of an entry than the directory of the package (`Agrees`); mostly it has none at all.

So the payload that is found in a front is the one of the package.  The walk takes the end of the
bytes for the end of the entries, though, and the entry with the properties may stand behind the
cut.  The front is then accepted with the default in their place, and this is the only way in which
it tells something else than the package (`specOf_take_iff`, `not_specOf_take`).
-/
import FleetAgent.Proofs.Update.Locality
import FleetAgent.Proofs.Update.Members

namespace FleetAgent.Update.Payload

open FleetAgent.Archive

/-- A package whose entries are laid one behind the other, with other names, and are read as they
have been written. -/
structure IsIntact (archive : List UInt8) (ps : List Piece) : Prop where
  file : archive.length < Numeral.signed64End
  laid : ∃ stop, Laid archive 0 ps stop ∧ ¬ BeginsAt archive stop
  read : ∀ p ∈ ps, p.IsRead archive (Directory.ofArchive archive)
  names : (ps.map fun p => nameAt archive p.position).Nodup

/-- If the front of an archive has a directory that can be read, then what it tells of an entry with
a descriptor is what the directory of the archive tells. -/
def Agrees (front archive : List UInt8) (ps : List Piece) : Prop :=
  ∀ d, Directory.ofArchive front = .ok d → ∀ p ∈ ps, p.isDescribed archive = true → ∀ sizes,
    d.sizes? (titleAt archive p.position) = some sizes →
      ∃ d', Directory.ofArchive archive = .ok d' ∧
        d'.sizes? (titleAt archive p.position) = some sizes

/-! ## Pieces and the cut -/

section

variable {front tail : List UInt8} {pos next stop last : Nat} {p : Piece} {ps : List Piece}
  {e : Entry} {es : List Entry} {found result : Found}

lemma Laid.le_position {archive : List UInt8} (h : Laid archive pos ps stop) (hp : p ∈ ps) :
    pos ≤ p.position := by
  induction h with
  | nil pos => cases hp
  | cons q ps stop hstands hlater ih =>
    rcases List.mem_cons.mp hp with rfl | hp
    · exact Nat.le_refl _
    · have hle := Piece.lt_stop archive q
      have hlater := ih hp
      omega

/-- An entry that is read in the front is the piece that has been written. -/
lemma entry_eq_of_front (hread : p.IsRead (front ++ tail) (Directory.ofArchive (front ++ tail)))
    (hagrees : p.isDescribed (front ++ tail) = true → ∀ d sizes,
      Directory.ofArchive front = .ok d →
      d.sizes? (titleAt (front ++ tail) p.position) = some sizes →
        ∃ d', Directory.ofArchive (front ++ tail) = .ok d' ∧
          d'.sizes? (titleAt (front ++ tail) p.position) = some sizes)
    (he : Entry.ofArchive front (Directory.ofArchive front) p.position = .ok e) :
    e = p.entry (front ++ tail) := by
  rw [← ofArchive_append tail (dataAt_le_of_ofArchive he)] at he
  have hsame := ofArchive_of_tells he hagrees
  rw [hread.entry_eq] at hsame
  exact (Except.ok.inj hsame).symm

/-- Behind a piece a walk over the front goes on at the end of the piece, or too late to find
another entry. -/
lemma next_of_front (hread : p.IsRead (front ++ tail) directory)
    (hnext : (p.entry (front ++ tail)).stop front (p.dataStop (front ++ tail)) = .ok next) :
    next = p.stop (front ++ tail)
      ∨ front.length < next ∧ front.length < p.stop (front ++ tail) := by
  have hstop : p.stop (front ++ tail) = p.dataStop (front ++ tail)
      + (p.entry (front ++ tail)).descriptorSize (front ++ tail) := by
    rw [hread.descriptorSize_eq, Piece.stop]
  rw [stop_eq_ok hnext, hstop]
  exact (descriptorSize_append_or front tail (p.entry (front ++ tail))).imp_left
    fun hsame => congrArg _ hsame.symm

/-- What a successful walk over the front has found is what the pieces up to the cut hold; the other
ones begin too late to be seen. -/
lemma visits_of_walks (hlaid : Laid (front ++ tail) pos ps stop)
    (hbehind : ¬ BeginsAt (front ++ tail) stop)
    (hread : ∀ p ∈ ps, p.IsRead (front ++ tail) (Directory.ofArchive (front ++ tail)))
    (hagrees : Agrees front (front ++ tail) ps)
    (h : Walks front (Directory.ofArchive front) pos found es last result) :
    ∃ before after, ps = before ++ after ∧
      (∀ p ∈ before, p.dataStop (front ++ tail) ≤ front.length) ∧
      (∀ p ∈ after, front.length < p.position + 4) ∧
      visits (front ++ tail) before found = .ok result := by
  -- where an entry begins in the front, one begins in the archive
  have hbegins {pos : Nat} (h : entryBegins front pos = .ok true) :
      BeginsAt (front ++ tail) pos := by
    obtain ⟨hroom, hsignature⟩ := (entryBegins_eq_ok h).mp rfl
    refine ⟨?_, (numberAt_append tail hroom).trans hsignature⟩
    rw [List.length_append]
    omega
  induction hlaid generalizing found es with
  | nil pos =>
    cases h with
    | stop => exact ⟨[], [], rfl, nofun, nofun, rfl⟩
    | visit _ _ _ _ _ _ _ _ hcase => exact absurd (hbegins hcase) hbehind
  | cons p ps stop hstands hlater ih =>
    cases h with
    | stop _ _ hcase =>
      have hcut : front.length < p.position + 4 := by
        by_contra hroom
        have hnone := mt (entryBegins_eq_ok hcase).mpr Bool.false_ne_true
        refine hnone ⟨Nat.not_lt.mp hroom, ?_⟩
        rw [← numberAt_append tail (Nat.not_lt.mp hroom)]
        exact hstands.begins
      refine ⟨[], p :: ps, rfl, nofun, fun q hq => ?_, rfl⟩
      have hle := (Laid.cons p ps stop hstands hlater).le_position hq
      omega
    | visit _ _ e es next visited _ _ hcase hentry hinside hvisit hnext hrest =>
      obtain rfl := entry_eq_of_front (hread p List.mem_cons_self)
        (fun hdescribed d sizes hd => hagrees d hd p List.mem_cons_self hdescribed sizes) hentry
      have hdata : p.dataStop (front ++ tail) ≤ front.length := hinside
      have hvisit' : found.visit (front ++ tail) (p.entry (front ++ tail)) = .ok visited := by
        rw [visit_append tail hinside, hvisit]
      rcases next_of_front (hread p List.mem_cons_self) hnext with rfl | ⟨hnone, hcut⟩
      · obtain ⟨before, after, rfl, hbefore, hafter, hfound⟩ := ih hbehind
          (fun q hq => hread q (List.mem_cons_of_mem p hq))
          (fun d hd q hq => hagrees d hd q (List.mem_cons_of_mem p hq)) hrest
        refine ⟨p :: before, after, rfl, ?_, hafter, ?_⟩
        · exact fun q hq => (List.mem_cons.mp hq).elim (fun h => h ▸ hdata) (hbefore q)
        · rw [visits_cons, hvisit']
          exact hfound
      · -- the walk stops behind the front, and so does the piece
        cases hrest with
        | visit _ _ _ _ _ _ _ _ hmore =>
          have hroom := ((entryBegins_eq_ok hmore).mp rfl).1
          omega
        | stop =>
          refine ⟨[p], ps, rfl, fun q hq => List.mem_singleton.mp hq ▸ hdata, fun q hq => ?_, ?_⟩
          · have hle := hlater.le_position hq
            omega
          · rw [visits_cons, hvisit']
            rfl

end

/-! ## What pieces with other names hold -/

section

variable {archive : List UInt8} {p : Piece} {ps before after : List Piece} {found result : Found}

lemma visits_append_pieces (archive : List UInt8) (before after : List Piece) (found : Found) :
    visits archive (before ++ after) found
      = visits archive before found >>= fun found => visits archive after found :=
  List.foldlM_append

/-- Pieces with other names leave the properties alone. -/
lemma properties_visits (hother : ∀ p ∈ ps, titleAt archive p.position ≠ propertiesName)
    (h : visits archive ps found = .ok result) : result.properties = found.properties := by
  induction ps generalizing found with
  | nil =>
    cases h
    rfl
  | cons p ps ih =>
    rw [visits_cons] at h
    obtain ⟨visited, hvisit, h⟩ := bind_eq_ok.mp h
    rw [ih (fun q hq => hother q (List.mem_cons_of_mem p hq)) h]
    obtain ⟨-, -, rfl⟩ | ⟨-, hproperties, -⟩ | ⟨-, -, rfl⟩ := visit_eq_ok hvisit
    · rfl
    · exact absurd hproperties (hother p List.mem_cons_self)
    · rfl

/-- Pieces that are neither the payload nor the properties are visited without anything being
found. -/
lemma visits_other (hpayload : ∀ p ∈ ps, titleAt archive p.position ≠ payloadName)
    (hproperties : ∀ p ∈ ps, titleAt archive p.position ≠ propertiesName) (found : Found) :
    visits archive ps found = .ok found := by
  induction ps with
  | nil => rfl
  | cons p ps ih =>
    have hname : (p.entry archive).name = titleAt archive p.position := rfl
    have hvisit : found.visit archive (p.entry archive) = .ok found := by
      rw [Found.visit, hname, if_neg (hpayload p List.mem_cons_self),
        if_neg (hproperties p List.mem_cons_self)]
      rfl
    rw [visits_cons, hvisit]
    exact ih (fun q hq => hpayload q (List.mem_cons_of_mem p hq))
      fun q hq => hproperties q (List.mem_cons_of_mem p hq)

/-- Where names are unique, one piece at most has the title of a given name of ASCII characters. -/
lemma title_ne_of_nodup
    (hnames : ((before ++ p :: after).map fun p => nameAt archive p.position).Nodup)
    {name : String} (hascii : ∀ c ∈ name.toList, c.toNat < 0x80)
    (hp : titleAt archive p.position = name) :
    (∀ q ∈ before, titleAt archive q.position ≠ name) ∧
      ∀ q ∈ after, titleAt archive q.position ≠ name := by
  have hsame {q : Piece} (hq : titleAt archive q.position = name) :
      nameAt archive q.position = nameAt archive p.position := by
    rw [titleAt, Text.Utf8.decodeLossy_eq_iff hascii] at hp hq
    rw [hp, hq]
  rw [List.map_append, List.map_cons] at hnames
  obtain ⟨-, hlater, hapart⟩ := List.nodup_append.mp hnames
  refine ⟨fun q hq htitle => ?_, fun q hq htitle => ?_⟩
  · exact hapart _ (List.mem_map_of_mem hq) _ List.mem_cons_self (hsame htitle)
  · exact (List.nodup_cons.mp hlater).1 (hsame htitle ▸ List.mem_map_of_mem hq)

end

/-! ## Fronts -/

section

variable {archive : List UInt8} {ps before after : List Piece} {n : Nat} {found : Found}

/-- The whole walk over an intact package visits its pieces. -/
lemma IsIntact.find_eq (h : IsIntact archive ps) (hps : ps ≠ []) :
    find archive = visits archive ps ⟨none, none⟩ := by
  obtain ⟨stop, hlaid, hbehind⟩ := h.laid
  exact find_laid h.file hlaid hbehind hps h.read

/-- **A search in a front finds what the pieces up to the cut hold**, if it succeeds. -/
theorem find_take (h : IsIntact archive ps) (hagrees : Agrees (archive.take n) archive ps)
    (hfound : find (archive.take n) = .ok found) :
    ∃ before after, ps = before ++ after ∧
      (∀ p ∈ before, p.dataStop archive ≤ (archive.take n).length) ∧
      (∀ p ∈ after, (archive.take n).length < p.position + 4) ∧
      visits archive before ⟨none, none⟩ = .ok found := by
  obtain ⟨es, last, hwalks⟩ := find_eq_ok_iff.mp hfound
  obtain ⟨stop, hlaid, hbehind⟩ := h.laid
  have hread := h.read
  have hsplit := List.take_append_drop n archive
  rw [← hsplit] at hlaid hbehind hread
  obtain ⟨before, after, hps, hbefore, hafter, hvisits⟩ :=
    visits_of_walks hlaid hbehind hread (by rwa [hsplit]) hwalks
  rw [hsplit] at hbefore hvisits
  exact ⟨before, after, hps, hbefore, hafter, hvisits⟩

/-- The payload that has been found in front of a cut is the only one. -/
lemma exists_payload (h : IsIntact archive (before ++ after)) {place : Nat × Nat}
    (hvisits : visits archive before ⟨none, none⟩ = .ok found)
    (hplace : found.payload = some place) :
    ∃ p ∈ before, titleAt archive p.position = payloadName ∧
      place = (dataAt archive p.position, p.stored) ∧
      ∀ q ∈ after, titleAt archive q.position ≠ payloadName := by
  have hsome : ∃ p ∈ before, titleAt archive p.position = payloadName := by
    by_contra hnone
    have hother : ∀ p ∈ before, titleAt archive p.position ≠ payloadName :=
      fun p hp htitle => hnone ⟨p, hp, htitle⟩
    rw [payload_visits hother hvisits] at hplace
    cases hplace
  obtain ⟨p, hp, htitle⟩ := hsome
  obtain ⟨early, late, rfl⟩ := List.append_of_mem hp
  have hnames := h.names
  rw [List.append_assoc, List.cons_append] at hnames
  have hother := (title_ne_of_nodup hnames (by simp [payloadName]) htitle).2
  have hpayload := payload_visits_append htitle
    (fun q hq => hother q (List.mem_append_left _ hq)) hvisits
  rw [hplace] at hpayload
  exact ⟨p, hp, htitle, Option.some.inj hpayload, fun q hq => hother q (List.mem_append_right _ hq)⟩

/-- What is found behind a cut is the properties, if they stand there. -/
lemma visits_behind (h : IsIntact archive (before ++ after))
    (hpayload : ∀ q ∈ after, titleAt archive q.position ≠ payloadName) (found : Found) :
    (visits archive after found = .ok found ∧
        ∀ q ∈ after, titleAt archive q.position ≠ propertiesName) ∨
      ∃ q ∈ after, titleAt archive q.position = propertiesName ∧
        (∀ p ∈ before, titleAt archive p.position ≠ propertiesName) ∧
        (∀ p ∈ after, titleAt archive p.position = propertiesName → p = q) ∧
        visits archive after found = (propertyBytes archive (q.entry archive)).map
          fun bytes => { found with properties := some (propertyLines bytes) } := by
  by_cases hsome : ∃ q ∈ after, titleAt archive q.position = propertiesName
  · obtain ⟨q, hq, htitle⟩ := hsome
    obtain ⟨early, late, rfl⟩ := List.append_of_mem hq
    have hnames := h.names
    rw [← List.append_assoc] at hnames
    obtain ⟨hearly, hlate⟩ := title_ne_of_nodup hnames (by simp [propertiesName]) htitle
    have hname : (q.entry archive).name = titleAt archive q.position := rfl
    have hother : titleAt archive q.position ≠ payloadName := hpayload q hq
    refine .inr ⟨q, hq, htitle, fun p hp => hearly p (List.mem_append_left _ hp), ?_, ?_⟩
    · intro p hp hp'
      rcases List.mem_append.mp hp with hp | hp
      · exact absurd hp' (hearly p (List.mem_append_right _ hp))
      · rcases List.mem_cons.mp hp with rfl | hp
        · rfl
        · exact absurd hp' (hlate p hp)
    · have hfirst := visits_other
        (fun p hp => hpayload p (List.mem_append_left _ hp))
        (fun p hp => hearly p (List.mem_append_right _ hp)) found
      have hrest := visits_other
        (fun p hp => hpayload p (List.mem_append_right _ (List.mem_cons_of_mem q hp))) hlate
      rw [visits_append_pieces, hfirst]
      change visits archive (q :: late) found = _
      rw [visits_cons, Found.visit, hname, if_neg hother, if_pos htitle]
      cases propertyBytes archive (q.entry archive) with
      | error failure => rfl
      | ok bytes => exact hrest _
  · have hnone : ∀ q ∈ after, titleAt archive q.position ≠ propertiesName :=
      fun q hq htitle => hsome ⟨q, hq, htitle⟩
    exact .inl ⟨visits_other hpayload hnone found, hnone⟩

end

/-! ## Main result -/

/-- **What is told by a package that has been cut off.**  If a front of an intact package is
accepted, then the payload of the package lies in the front, and its place is told.  The properties
are those of the package as well if and only if an entry with properties that stands behind the cut,
or begins less than four bytes in front of it, can be read and holds the default. -/
theorem specOf_take_iff (path : String) {archive : List UInt8} {ps : List Piece} (n : Nat)
    (h : IsIntact archive ps) (hagrees : Agrees (archive.take n) archive ps) {spec : PayloadSpec}
    (hspec : specOf path (archive.take n) = .ok spec) :
    (∃ p ∈ ps, titleAt archive p.position = payloadName ∧
      p.dataStop archive ≤ (archive.take n).length ∧
      spec.offset = dataAt archive p.position ∧ spec.size = p.stored) ∧
    (specOf path archive = .ok spec ↔
      ∀ q ∈ ps, titleAt archive q.position = propertiesName →
        (archive.take n).length < q.position + 4 →
          ∃ bytes, propertyBytes archive (q.entry archive) = .ok bytes ∧
            propertyLines bytes = defaultProperties) := by
  rw [specOf] at hspec
  split at hspec
  · cases hspec
  next found hfound =>
  split at hspec
  · cases hspec
  next offset size hpayload =>
  obtain rfl := Except.ok.inj hspec
  obtain ⟨before, after, rfl, hbefore, hafter, hvisits⟩ := find_take h hagrees hfound
  obtain ⟨p, hp, htitle, hplace, hother⟩ := exists_payload h hvisits hpayload
  obtain ⟨rfl, rfl⟩ := Prod.mk.inj hplace
  refine ⟨⟨p, List.mem_append_left _ hp, htitle, hbefore p hp, rfl, rfl⟩, ?_⟩
  have hall : find archive = visits archive after found := by
    rw [h.find_eq (List.ne_nil_of_mem (List.mem_append_left _ hp)), visits_append_pieces, hvisits]
    rfl
  -- an entry that begins behind the cut is not one of those that have been visited
  have hbehind {q : Piece} (hq : q ∈ before ++ after)
      (hcut : (archive.take n).length < q.position + 4) : q ∈ after := by
    refine (List.mem_append.mp hq).resolve_left fun hq => ?_
    have hle := hbefore q hq
    rw [Piece.dataStop, dataAt, headerLength] at hle
    omega
  rcases visits_behind h hother found with
    ⟨hrest, hnone⟩ | ⟨q, hq, hqtitle, hearly, honly, hrest⟩
  · refine iff_of_true ?_ fun q hq hqtitle hcut => absurd hqtitle (hnone q (hbehind hq hcut))
    rw [specOf, hall, hrest]
    simp only [hpayload]
  · have hproperties : found.properties = none := properties_visits hearly hvisits
    have hmem : q ∈ before ++ after := List.mem_append_right _ hq
    cases hbytes : propertyBytes archive (q.entry archive) with
    | error failure =>
      have hrefused : specOf path archive = .error (Fault.ofArchive failure) := by
        rw [specOf, hall, hrest, hbytes]
        rfl
      rw [hrefused]
      refine iff_of_false (fun h => by cases h) fun hdefault => ?_
      obtain ⟨bytes, hok, -⟩ := hdefault q hmem hqtitle (hafter q hq)
      cases hbytes.symm.trans hok
    | ok bytes =>
      have hwhole : specOf path archive = .ok ⟨"file://" ++ path, dataAt archive p.position,
          p.stored, propertyLines bytes⟩ := by
        rw [specOf, hall, hrest, hbytes]
        simp only [Except.map, hpayload, Option.getD_some]
      rw [hwhole, hproperties, Option.getD_none]
      constructor
      · intro hsame q' hq' hqtitle' hcut
        obtain rfl := honly q' (hbehind hq' hcut) hqtitle'
        exact ⟨bytes, hbytes, congrArg PayloadSpec.properties (Except.ok.inj hsame)⟩
      · intro hdefault
        obtain ⟨bytes', hok, hlines⟩ := hdefault q hmem hqtitle (hafter q hq)
        obtain rfl := Except.ok.inj (hbytes.symm.trans hok)
        rw [hlines]

/-- A package with the properties behind the payload. -/
def latePackage : List Member :=
  [.stored (Text.Utf8.encode payloadName) [1, 2, 3],
    .stored (Text.Utf8.encode propertiesName) (Text.Utf8.encode "A=1\n")]

lemma isNarrow_latePackage : ∀ m ∈ latePackage, m.IsNarrow := by
  intro m hm
  simp only [latePackage, List.mem_cons, List.not_mem_nil, or_false] at hm
  rcases hm with rfl | rfl
  all_goals exact ⟨by decide, by decide, by decide, by decide, by decide, by decide, by decide,
    nofun⟩

lemma isIntact_latePackage : IsIntact (archiveOf latePackage) (piecesFrom 0 latePackage) := by
  have hfits : ∀ m ∈ latePackage, m.Fits := fun m hm => (isNarrow_latePackage m hm).fits
  have hentries : StandsAt (archiveOf latePackage) 0 (entriesOf latePackage) :=
    ⟨[], _, by rw [archiveOf, archiveWithComment, List.append_assoc]; rfl, rfl⟩
  have hplain : ∀ m ∈ latePackage, m.isDescribed = false := by decide
  have hfile : (archiveOf latePackage).length < Numeral.signed64End := by decide +kernel
  refine ⟨hfile, ⟨_, laid_piecesFrom hentries hfits, ?_⟩, fun p hp => ?_, by decide +kernel⟩
  · exact fun hbegins => absurd hbegins.2 (by decide +kernel)
  · exact isRead_piecesFrom hentries hfits hfile
      (fun m hm hdescribed => absurd ((hplain m hm).symm.trans hdescribed) Bool.false_ne_true) hp

/-- Cut off right behind its payload, the package is accepted with the place of the payload, but not
as the package. -/
theorem specOf_take_iff_sample :
    ∃ spec, specOf "/data/ota.zip" ((archiveOf latePackage).take 44) = .ok spec ∧
      spec.offset = 41 ∧ spec.size = 3 ∧
      specOf "/data/ota.zip" (archiveOf latePackage) ≠ .ok spec := by
  have hspec : specOf "/data/ota.zip" ((archiveOf latePackage).take 44)
      = .ok ⟨"file:///data/ota.zip", 41, 3, defaultProperties⟩ := by decide +kernel
  have hagrees : Agrees ((archiveOf latePackage).take 44) (archiveOf latePackage)
      (piecesFrom 0 latePackage) := by
    intro d hd
    have hnone : Directory.ofArchive ((archiveOf latePackage).take 44)
        = .error (.corrupt .noEndRecord) := by decide +kernel
    rw [hnone] at hd
    cases hd
  obtain ⟨-, hiff⟩ := specOf_take_iff "/data/ota.zip" 44 isIntact_latePackage hagrees hspec
  refine ⟨_, hspec, rfl, rfl, fun hsame => ?_⟩
  obtain ⟨bytes, hbytes, hlines⟩ := hiff.mp hsame _ (List.mem_cons_of_mem _ List.mem_cons_self)
    (by decide +kernel) (by decide +kernel)
  have hown : bytes = Text.Utf8.encode "A=1\n" := by
    refine Except.ok.inj (hbytes.symm.trans ?_)
    decide +kernel
  rw [hown] at hlines
  exact absurd hlines (by decide +kernel)

/-- **A package that is cut off may be accepted with other properties.**  Of `latePackage` the bytes
up to the end of the payload are accepted, with the default in place of its properties. -/
theorem not_specOf_take :
    ¬∀ (path : String) (ms : List Member) (n : Nat) (spec : PayloadSpec), (∀ m ∈ ms, m.IsNarrow) →
      (ms.map Member.name).Nodup → (∃ m ∈ ms, m.title = payloadName) →
      n < (archiveOf ms).length → specOf path ((archiveOf ms).take n) = .ok spec →
        specOf path (archiveOf ms) = .ok spec := by
  intro h
  have hcut : specOf "/data/ota.zip" ((archiveOf latePackage).take 44)
      = .ok ⟨"file:///data/ota.zip", 41, 3, defaultProperties⟩ := by decide +kernel
  have hwhole : specOf "/data/ota.zip" (archiveOf latePackage)
      = .ok ⟨"file:///data/ota.zip", 41, 3, ["A=1"]⟩ := by decide +kernel
  have hsame := h "/data/ota.zip" latePackage 44 _ isNarrow_latePackage (by decide +kernel)
    (by decide +kernel) (by decide +kernel) hcut
  rw [hwhole] at hsame
  exact absurd hsame (by decide +kernel)

end FleetAgent.Update.Payload
