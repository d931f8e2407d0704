/-
# The entries of a written archive

Where a member has been written, the entry read there is the member's own (`ofArchive_entryAt`),
and the position behind it is the end of the member's bytes (`stop_entryAt`).  For a member with
a descriptor this needs two things that its own bytes do not tell: the directory must list the
member's sizes under its title (`Listed`), and a descriptor without a signature must not begin
like one with a signature.
-/
import FleetAgent.Proofs.Archive.Directory

namespace FleetAgent.Archive

/-- What a reader needs to know of a member with a descriptor: the directory lists its sizes,
and these tell how wide the descriptor is. -/
structure Listed (directory : Except Failure Directory) (m : Member) : Prop where
  sizes : ∃ d, directory = .ok d ∧ d.sizes? m.title = some m.sizes
  width : isWideSize m.data.length = m.isWide
  unsigned : m.placement = .descriptor false → m.checksum % 256 ^ 4 ≠ descriptorSignature

/-- The entry that a member written at a position is. -/
def Member.entryAt (m : Member) (pos : Nat) : Entry :=
  ⟨m.title, m.flags, m.method, pos + m.header.length, m.data.length, m.isWide⟩

variable {archive : List UInt8} {directory : Except Failure Directory} {pos : Nat} {m : Member}

/-! ## The header -/

lemma isWide_eq_false : m.isWide = false ↔ m.plainSize < saturated ∧ m.data.length < saturated := by
  simp [Member.isWide, isWideSize]

lemma describes_flags (m : Member) : (m.flags / 8 % 2 == 1) = m.isDescribed := by
  rw [Member.flags]
  cases m.isDescribed <;> rfl

/-- The sizes in the header of a member without a descriptor are its own, whether they are
written narrow or wide. -/
lemma headerSizes_header (h : m.Fits) (hplain : m.isDescribed = false) :
    headerSizes m.title m.headerExtra m.headerSizes.1 m.headerSizes.2
      = .ok ⟨m.data.length, m.isWide⟩ := by
  by_cases hwide : m.isWide = true
  · have hsizes : m.headerSizes = (saturated, saturated) := by
      simp [Member.headerSizes, hplain, hwide]
    have hextra : m.headerExtra = wideBlock [m.plainSize, m.data.length] ++ m.extra := by
      simp [Member.headerExtra, hplain, hwide]
    have hlt : ∀ n ∈ [m.plainSize, m.data.length], n < 256 ^ 8 := by
      intro n hn
      simp only [List.mem_cons, List.not_mem_nil, or_false] at hn
      rcases hn with rfl | rfl
      · exact h.plainSize
      · exact h.storedSize
    have hsize : wideSize m.title m.headerExtra 1 = .ok m.data.length :=
      (hextra ▸ holdsWide_wideBlock (by simp) hlt m.extra).wideSize_eq h.headerExtra rfl m.title
    simp [headerSizes, hsizes, hsize, hwide, bind, Except.bind, pure, Except.pure]
  · have hnarrow : m.isWide = false := by simpa using hwide
    obtain ⟨hplain', hstored⟩ := isWide_eq_false.mp hnarrow
    have hboth : ¬ (m.data.length = saturated ∨ m.plainSize = saturated) := by omega
    have hsizes : m.headerSizes = (m.data.length, m.plainSize) := by
      simp [Member.headerSizes, hplain, hnarrow]
    simp only [headerSizes, hsizes, hboth, if_false, hnarrow, pure, Except.pure]

/-- The sizes in the header of a member with a descriptor tell nothing. -/
lemma headerSizes_described (hdescribed : m.isDescribed = true) (name : String)
    (extra : List UInt8) :
    headerSizes name extra m.headerSizes.1 m.headerSizes.2 = .ok ⟨0, false⟩ := by
  have hsizes : m.headerSizes = (0, 0) := by simp [Member.headerSizes, hdescribed]
  rw [headerSizes, hsizes, if_neg (by decide)]
  rfl

/-- The header and the directory together tell the sizes of every member. -/
lemma entrySizes_member (h : m.Fits) (hlisted : m.isDescribed = true → Listed directory m) :
    ∃ own, headerSizes m.title m.headerExtra m.headerSizes.1 m.headerSizes.2 = .ok own ∧
      entrySizes directory m.title m.isDescribed own = .ok ⟨m.data.length, m.isWide⟩ := by
  cases hdescribed : m.isDescribed with
  | false => exact ⟨_, headerSizes_header h hdescribed, rfl⟩
  | true =>
    obtain ⟨⟨d, rfl, hd⟩, hwidth, -⟩ := hlisted hdescribed
    refine ⟨_, headerSizes_described hdescribed _ _, ?_⟩
    simp [entrySizes, hd, bind, Except.bind, pure, Except.pure, Member.sizes, hwidth]

/-- The sizes in a header fit their fields. -/
lemma headerSizes_lt (m : Member) :
    m.headerSizes.1 < 256 ^ 4 ∧ m.headerSizes.2 < 256 ^ 4 := by
  rw [Member.headerSizes]
  split
  · decide
  · split
    · decide
    · rename_i hwide
      have hnarrow : m.isWide = false := by simpa using hwide
      obtain ⟨hplain, hstored⟩ := isWide_eq_false.mp hnarrow
      exact ⟨Nat.lt_trans hstored (by decide), Nat.lt_trans hplain (by decide)⟩

/-! ## The entry -/

/-- The entry where a member stands is the member's own. -/
theorem ofArchive_entryAt (h : m.Fits) (hat : StandsAt archive pos m.header)
    (hfile : archive.length < Numeral.signed64End)
    (hlisted : m.isDescribed = true → Listed directory m) :
    Entry.ofArchive archive directory pos = .ok (m.entryAt pos) := by
  have hend := hat.length_le
  rw [Member.length_header] at hend
  have hhead : StandsAt archive pos (fields m.headerNumbers ++ (m.name ++ m.headerExtra)) := hat
  have hread : read archive pos headerLength headerLength = .ok (fields m.headerNumbers) := by
    refine read_eq_of_standsAt hhead.left ?_ (by omega)
    simp [Member.headerNumbers, headerLength]
  have hself : StandsAt (fields m.headerNumbers) 0 (fields m.headerNumbers ++ []) := by
    simpa using standsAt_self (fields m.headerNumbers)
  have hflags : field (fields m.headerNumbers) 6 2 = .ok m.flags := by
    have hfield := field_of_fields hself 2 rfl
    have hlt : m.flags < 256 ^ 2 := by
      rw [Member.flags]
      split <;> decide
    rwa [Nat.mod_eq_of_lt hlt] at hfield
  have hmethod : field (fields m.headerNumbers) 8 2 = .ok m.method := by
    have hfield := field_of_fields hself 3 rfl
    rwa [Nat.mod_eq_of_lt h.method] at hfield
  have hcompressed : field (fields m.headerNumbers) 18 4 = .ok m.headerSizes.1 := by
    have hfield := field_of_fields hself 6 rfl
    rwa [Nat.mod_eq_of_lt (headerSizes_lt m).1] at hfield
  have huncompressed : field (fields m.headerNumbers) 22 4 = .ok m.headerSizes.2 := by
    have hfield := field_of_fields hself 7 rfl
    rwa [Nat.mod_eq_of_lt (headerSizes_lt m).2] at hfield
  have hnameLength : field (fields m.headerNumbers) 26 2 = .ok m.name.length := by
    have hfield := field_of_fields hself 8 rfl
    rwa [Nat.mod_eq_of_lt h.name] at hfield
  have hextraLength : field (fields m.headerNumbers) 28 2 = .ok m.headerExtra.length := by
    have hfield := field_of_fields hself 9 rfl
    rwa [Nat.mod_eq_of_lt h.headerExtra] at hfield
  have hnameStart : add pos headerLength = .ok (pos + headerLength) :=
    add_eq_ok_of_le (by omega) hfile
  have hnameExtra : read archive (pos + headerLength) (m.name.length + m.headerExtra.length)
      maxNameExtra = .ok (m.name ++ m.headerExtra) := by
    have hbehind : StandsAt archive (pos + headerLength) (m.name ++ m.headerExtra) := hhead.right
    have hlimit : m.name.length + m.headerExtra.length ≤ maxNameExtra := by
      have hname := h.name
      have hextra := h.headerExtra
      simp only [maxNameExtra]
      omega
    simpa using read_eq_of_standsAt hbehind (by simpa using hlimit) (by omega)
  have hdataOffset : add (pos + headerLength) (m.name.length + m.headerExtra.length)
      = .ok (pos + headerLength + (m.name.length + m.headerExtra.length)) :=
    add_eq_ok_of_le (by omega) hfile
  obtain ⟨own, hown, hsizes⟩ := entrySizes_member h hlisted
  simp only [Member.title] at hown hsizes
  simp only [Entry.ofArchive, hread, hflags, hmethod, hcompressed, huncompressed, hnameLength,
    hextraLength, hnameStart, hnameExtra, hdataOffset, List.take_left, List.drop_left, hown,
    describes_flags, hsizes, bind, Except.bind, pure, Except.pure]
  simp only [Member.entryAt, Member.title, Member.length_header, Nat.add_assoc]

/-! ## The position behind the entry -/

/-- What the first four bytes of a descriptor decide. -/
lemma descriptorLength_of_standsAt {n : Nat} (wide : Bool) (hat : StandsAt archive pos (bytesOf 4 n))
    (hfile : archive.length < Numeral.signed64End) :
    descriptorLength archive pos wide = .ok
      ((if n % 256 ^ 4 = descriptorSignature then 8 else 4) + if wide then 16 else 8) := by
  have hend := hat.length_le
  rw [length_bytesOf] at hend
  have hadd : add pos 4 = .ok (pos + 4) := add_eq_ok_of_le hend hfile
  have hread := read32_of_standsAt hat (by omega)
  generalize n % 256 ^ 4 = first at hread ⊢
  by_cases hsignature : first = descriptorSignature <;>
    simp [descriptorLength, hadd, hend, hread, hsignature, bind, Except.bind, pure, Except.pure]

/-- The length of a descriptor is found from its first four bytes. -/
lemma descriptorLength_descriptor (hdescribed : m.isDescribed = true)
    (hat : StandsAt archive pos m.descriptor) (hfile : archive.length < Numeral.signed64End)
    (hunsigned : m.placement = .descriptor false → m.checksum % 256 ^ 4 ≠ descriptorSignature) :
    descriptorLength archive pos m.isWide = .ok m.descriptor.length := by
  cases hplacement : m.placement with
  | header => simp [Member.isDescribed, hplacement] at hdescribed
  | descriptor signed =>
    cases signed with
    | false =>
      have hdescriptor : m.descriptor = bytesOf 4 m.checksum ++ fields
          [(if m.isWide then 8 else 4, m.data.length), (if m.isWide then 8 else 4, m.plainSize)] := by
        simp [Member.descriptor, hplacement, fields_cons]
      rw [hdescriptor] at hat ⊢
      rw [descriptorLength_of_standsAt m.isWide hat.left hfile, if_neg (hunsigned hplacement)]
      cases m.isWide <;> simp
    | true =>
      have hdescriptor : m.descriptor = bytesOf 4 descriptorSignature ++ fields
          [(4, m.checksum), (if m.isWide then 8 else 4, m.data.length),
            (if m.isWide then 8 else 4, m.plainSize)] := by
        simp [Member.descriptor, hplacement, fields_cons]
      rw [hdescriptor] at hat ⊢
      rw [descriptorLength_of_standsAt m.isWide hat.left hfile, if_pos (by decide)]
      cases m.isWide <;> simp

/-- The entry of a member stops where the member's bytes end. -/
theorem stop_entryAt (hat : StandsAt archive pos m.bytes)
    (hfile : archive.length < Numeral.signed64End)
    (hlisted : m.isDescribed = true → Listed directory m) :
    (m.entryAt pos).stop archive (pos + m.header.length + m.data.length)
      = .ok (pos + m.bytes.length) := by
  have hend := hat.length_le
  have hlen : m.bytes.length = m.header.length + m.data.length + m.descriptor.length := by
    rw [Member.bytes, List.length_append, List.length_append]
  have hdescriptor : (m.entryAt pos).hasDescriptor = m.isDescribed := describes_flags m
  rw [Entry.stop, hdescriptor]
  cases hdescribed : m.isDescribed with
  | false =>
    have hnone : m.descriptor = [] := by
      have hplacement : m.placement = .header := by simpa [Member.isDescribed] using hdescribed
      simp [Member.descriptor, hplacement]
    simp [hlen, hnone, pure, Except.pure, Nat.add_assoc]
  | true =>
    have hbehind : StandsAt archive (pos + m.header.length + m.data.length) m.descriptor := by
      rw [Member.bytes] at hat
      simpa [Nat.add_assoc] using hat.right
    have hlength := descriptorLength_descriptor hdescribed hbehind hfile
      (hlisted hdescribed).unsigned
    have hadd : add (pos + m.header.length + m.data.length) m.descriptor.length
        = .ok (pos + m.header.length + m.data.length + m.descriptor.length) :=
      add_eq_ok_of_le (by omega) hfile
    have hwide : (m.entryAt pos).wide = m.isWide := rfl
    simp only [if_true, hwide, hlength, hadd, bind, Except.bind]
    rw [hlen, Nat.add_assoc, Nat.add_assoc, Nat.add_assoc]

end FleetAgent.Archive
