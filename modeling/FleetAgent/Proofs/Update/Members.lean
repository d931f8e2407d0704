/-
# The members of a package as pieces

Where a member has been written, its piece stands (`Member.standsIn_piece`): the header tells what
the member is, and behind the data there is its descriptor.  This holds of every member whose
numbers fit their fields, with wide sizes and without.  A reader that finds the sizes of a member
reads its piece as it has been written (`Member.isRead_piece`).

So the members of a package are laid in it one behind the other (`laid_piecesFrom`), and what is
shown of packages that are laid out in pieces holds of all that are written from members.
-/
import FleetAgent.Proofs.Archive.Entry
import FleetAgent.Proofs.Update.Laid

namespace FleetAgent.Archive

namespace Member

/-- The piece that a member written at a position is. -/
def piece (m : Member) (pos : Nat) : Piece :=
  ⟨pos, m.data.length, m.isWide, m.placement == .descriptor true⟩

variable {archive : List UInt8} {directory : Except Failure Directory} {pos : Nat} {m : Member}

/-! ## The header -/

section

variable (hat : StandsAt archive pos m.header)

include hat

lemma flags_header : numberAt archive (pos + 6) 2 = m.flags := by
  have hlt : m.flags < 256 ^ 2 := by
    rw [flags]
    split <;> decide
  exact numberAt_of_fields hat 2 rfl hlt

lemma isDescribedAt_header : isDescribedAt archive pos = m.isDescribed := by
  rw [isDescribedAt, flags_header hat, describes_flags]

lemma storedSize_header : numberAt archive (pos + 18) 4 = m.headerSizes.1 :=
  numberAt_of_fields hat 6 rfl (headerSizes_lt m).1

/-- The sizes in the header are saturated where they are wide and no descriptor tells them. -/
lemma isSaturatedAt_header :
    IsSaturatedAt archive pos ↔ m.isDescribed = false ∧ m.isWide = true := by
  have hplain : numberAt archive (pos + 22) 4 = m.headerSizes.2 :=
    numberAt_of_fields hat 7 rfl (headerSizes_lt m).2
  rw [IsSaturatedAt, storedSize_header hat, hplain, Member.headerSizes]
  cases hdescribed : m.isDescribed with
  | true => simp [saturated]
  | false =>
    cases hwide : m.isWide with
    | true => simp
    | false =>
      obtain ⟨hplain, hstored⟩ := isWide_eq_false.mp hwide
      simp [Nat.ne_of_lt hplain, Nat.ne_of_lt hstored]

variable (hfits : m.Fits)

include hfits

lemma nameLength_header : numberAt archive (pos + 26) 2 = m.name.length :=
  numberAt_of_fields hat 8 rfl hfits.name

lemma extraLength_header : numberAt archive (pos + 28) 2 = m.headerExtra.length :=
  numberAt_of_fields hat 9 rfl hfits.headerExtra

lemma dataAt_header : dataAt archive pos = pos + m.header.length := by
  rw [dataAt, nameLength_header hat hfits, extraLength_header hat hfits, length_header,
    Nat.add_assoc]

lemma nameAt_header : nameAt archive pos = m.name := by
  have hbehind : StandsAt archive (pos + headerLength) m.name := hat.right.left
  rw [nameAt, nameLength_header hat hfits, bytesAt_of_standsAt hbehind]

lemma extraAt_header : extraAt archive pos = m.headerExtra := by
  have hbehind : StandsAt archive (pos + headerLength + m.name.length) m.headerExtra :=
    hat.right.right
  rw [extraAt, nameLength_header hat hfits, extraLength_header hat hfits,
    bytesAt_of_standsAt hbehind]

/-- The entry of the piece is the one of the member. -/
lemma entry_piece : (m.piece pos).entry archive = m.entryAt pos := by
  have hmethod : numberAt archive (pos + 8) 2 = m.method :=
    numberAt_of_fields hat 3 rfl hfits.method
  rw [Piece.entry, piece, FleetAgent.Archive.entryAt, titleAt, nameAt_header hat hfits,
    flags_header hat, hmethod, dataAt_header hat hfits]
  rfl

end

/-! ## The piece -/

lemma length_descriptor (m : Member) : m.descriptor.length
    = if m.isDescribed then
        (if m.placement == .descriptor true then 4 else 0) + 4 + (if m.isWide then 16 else 8)
      else 0 := by
  rw [descriptor, isDescribed]
  rcases m.placement with _ | (_ | _) <;> cases m.isWide <;> rfl

lemma dataStop_piece (hat : StandsAt archive pos m.header) (hfits : m.Fits) :
    (m.piece pos).dataStop archive = pos + m.header.length + m.data.length := by
  rw [Piece.dataStop, piece, dataAt_header hat hfits]

lemma stop_piece (hat : StandsAt archive pos m.header) (hfits : m.Fits) :
    (m.piece pos).stop archive = pos + m.bytes.length := by
  rw [Piece.stop, dataStop_piece hat hfits, Piece.descriptorSize, Piece.isDescribed, piece,
    isDescribedAt_header hat, bytes, List.length_append, List.length_append, length_descriptor]
  simp only [Nat.add_assoc]

/-- The first number of a descriptor is its signature, if it has one, or the checksum. -/
lemma numberAt_descriptor {signed : Bool} (hplacement : m.placement = .descriptor signed)
    (hat : StandsAt archive pos m.descriptor) : numberAt archive pos 4
      = if signed then descriptorSignature else m.checksum % 256 ^ 4 := by
  cases signed with
  | false =>
    have hbytes : StandsAt archive pos (fields [(4, m.checksum),
        (if m.isWide then 8 else 4, m.data.length), (if m.isWide then 8 else 4, m.plainSize)]
          ++ []) := by
      simpa [descriptor, hplacement] using hat
    exact numberAt_mod_of_fields hbytes 0 rfl
  | true =>
    have hbytes : StandsAt archive pos (fields [(4, descriptorSignature)] ++ fields
        [(4, m.checksum), (if m.isWide then 8 else 4, m.data.length),
          (if m.isWide then 8 else 4, m.plainSize)]) := by
      simpa [descriptor, hplacement] using hat
    rw [if_pos rfl]
    exact numberAt_of_fields hbytes 0 rfl (by decide)

variable (hat : StandsAt archive pos m.bytes) (hfits : m.Fits)

include hat hfits

/-- **The piece of a member stands where the member has been written.** -/
theorem standsIn_piece : (m.piece pos).StandsIn archive := by
  rw [bytes, List.append_assoc] at hat
  have hheader : StandsAt archive pos m.header := hat.left
  have hdescribed : (m.piece pos).isDescribed archive = m.isDescribed :=
    isDescribedAt_header hheader
  have hsaturated := isSaturatedAt_header hheader
  constructor
  · exact numberAt_of_fields hheader 0 rfl (by decide)
  · rw [stop_piece hheader hfits, bytes, List.append_assoc]
    exact hat.length_le
  · intro h
    obtain ⟨hplain, hwide⟩ := hsaturated.mp h
    refine ⟨m.plainSize, m.data.length, ?_, fun _ => rfl⟩
    have hextra : extraAt archive pos = wideBlock [m.plainSize, m.data.length] ++ m.extra := by
      rw [extraAt_header hheader hfits, headerExtra, hplain, hwide]
      rfl
    refine ⟨[], [], m.extra, by simp [piece, hextra, wideBlock, extraBlock], List.forall_mem_nil _,
      ?_⟩
    intro n hn
    rcases List.mem_pair.mp hn with rfl | rfl
    · exact hfits.plainSize
    · exact hfits.storedSize
  · intro hplain hnarrow
    rw [hdescribed] at hplain
    have hwide : m.isWide = false := by
      by_contra hwide
      exact hnarrow (hsaturated.mpr ⟨hplain, by simpa using hwide⟩)
    exact (storedSize_header hheader).trans (by simp [Member.headerSizes, hplain, hwide, piece])
  · intro hplain
    rw [hdescribed] at hplain
    exact ⟨fun hwide => hsaturated.mpr ⟨hplain, hwide⟩, fun h => (hsaturated.mp h).2⟩
  · intro _ hsigned
    have hplacement : m.placement = .descriptor true := by simpa [piece] using hsigned
    rw [dataStop_piece hheader hfits]
    exact numberAt_descriptor hplacement hat.right.right

/-- **A member whose sizes are found is read as it has been written.** -/
theorem isRead_piece (hfile : archive.length < Numeral.signed64End)
    (hlisted : m.isDescribed = true → Listed directory m) :
    (m.piece pos).IsRead archive directory := by
  have hstands := standsIn_piece hat hfits
  rw [bytes, List.append_assoc] at hat
  have hheader : StandsAt archive pos m.header := hat.left
  have hcase : (m.piece pos).isDescribed archive = m.isDescribed := isDescribedAt_header hheader
  cases hdescribed : m.isDescribed with
  | false => exact hstands.isRead_of_not_described hfile (hcase.trans hdescribed)
  | true =>
    refine ⟨?_, ?_⟩
    · rw [entry_piece hheader hfits]
      exact ofArchive_entryAt hfits hheader hfile hlisted
    · rw [Entry.descriptorSize, Piece.entry, Piece.hasDescriptor_entryAt, hcase, hdescribed]
      refine (hstands.descriptorSizeAt_eq_iff (hcase.trans hdescribed) _).mpr
        ⟨rfl, fun hsigned => ?_⟩
      -- a descriptor without a signature begins with the checksum
      have hplacement : m.placement = .descriptor false := by
        rcases hplace : m.placement with _ | (_ | _)
        · simp [isDescribed, hplace] at hdescribed
        · rfl
        · simp [piece, hplace] at hsigned
      rw [dataStop_piece hheader hfits, numberAt_descriptor hplacement hat.right.right]
      exact (hlisted hdescribed).unsigned hplacement

end Member

end FleetAgent.Archive

namespace FleetAgent.Update.Payload

open FleetAgent.Archive

/-- The pieces of members that are written from a position on. -/
def piecesFrom : Nat → List Member → List Piece
  | _, [] => []
  | pos, m :: ms => m.piece pos :: piecesFrom (pos + m.bytes.length) ms

variable {archive : List UInt8} {pos : Nat} {ms : List Member} {p : Piece}

/-- Each of the pieces is a member where it has been written. -/
lemma exists_member_of_mem (hat : StandsAt archive pos (entriesOf ms))
    (hp : p ∈ piecesFrom pos ms) :
    ∃ m ∈ ms, p = m.piece p.position ∧ StandsAt archive p.position m.bytes := by
  induction ms generalizing pos with
  | nil => cases hp
  | cons m ms ih =>
    have hsplit : entriesOf (m :: ms) = m.bytes ++ entriesOf ms := rfl
    rw [hsplit] at hat
    rcases List.mem_cons.mp hp with rfl | hp
    · exact ⟨m, List.mem_cons_self, rfl, hat.left⟩
    · obtain ⟨q, hq, hpiece⟩ := ih hat.right hp
      exact ⟨q, List.mem_cons_of_mem m hq, hpiece⟩

/-- **The members of a package are laid one behind the other.** -/
theorem laid_piecesFrom (hat : StandsAt archive pos (entriesOf ms)) (hfits : ∀ m ∈ ms, m.Fits) :
    Laid archive pos (piecesFrom pos ms) (pos + (entriesOf ms).length) := by
  induction ms generalizing pos with
  | nil => exact .nil pos
  | cons m ms ih =>
    have hsplit : entriesOf (m :: ms) = m.bytes ++ entriesOf ms := rfl
    rw [hsplit] at hat ⊢
    have hm := hfits m List.mem_cons_self
    have hheader : StandsAt archive pos m.header := by
      have hbytes := hat.left
      rw [Member.bytes, List.append_assoc] at hbytes
      exact hbytes.left
    have hrest := ih hat.right fun q hq => hfits q (List.mem_cons_of_mem m hq)
    rw [List.length_append, ← Nat.add_assoc]
    exact .before _ rfl (Member.standsIn_piece hat.left hm) (Member.stop_piece hheader hm) hrest

/-- The members of a package are read as they have been written, if their sizes are found. -/
lemma isRead_piecesFrom {directory : Except Failure Directory}
    (hat : StandsAt archive pos (entriesOf ms)) (hfits : ∀ m ∈ ms, m.Fits)
    (hfile : archive.length < Numeral.signed64End)
    (hlisted : ∀ m ∈ ms, m.isDescribed = true → Listed directory m)
    (hp : p ∈ piecesFrom pos ms) : p.IsRead archive directory := by
  obtain ⟨m, hm, hpiece, hbytes⟩ := exists_member_of_mem hat hp
  rw [hpiece]
  exact Member.isRead_piece hbytes (hfits m hm) hfile (hlisted m hm)

end FleetAgent.Update.Payload
