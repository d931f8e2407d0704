/-
# What a successful read has seen

Whatever the bytes of an archive are, an entry that has been read is described by the bytes at
its position (`Entry.StandsAt`): its signature, its flags and method, the bytes of its name, the
place of its data behind the header, and where its stored size comes from (`Entry.IsSized`).  So
only one entry stands at a position (`Entry.StandsAt.unique`).  The position behind it is the end of
its data, plus the length of its data descriptor (`Entry.descriptorSize`).

Each description is obtained by taking the checked reads apart, one after the other.
-/
import FleetAgent.Archive.Entry
import Mathlib.Tactic.Common

namespace FleetAgent.Archive

/-! ## Bytes at a position -/

/-- The `n` bytes from a position on, or as many as there are. -/
def bytesAt (bs : List UInt8) (pos n : Nat) : List UInt8 :=
  (bs.drop pos).take n

/-- The number of `width` bytes at a position. -/
def numberAt (bs : List UInt8) (pos width : Nat) : Nat :=
  number (bytesAt bs pos width)

lemma bytesAt_bytesAt (bs : List UInt8) (pos : Nat) {i w n : Nat} (h : i + w ≤ n) :
    bytesAt (bytesAt bs pos n) i w = bytesAt bs (pos + i) w := by
  rw [bytesAt, bytesAt, bytesAt, List.drop_take, List.take_take, List.drop_drop,
    Nat.min_eq_left (by omega)]

lemma take_bytesAt (bs : List UInt8) (pos m n : Nat) :
    (bytesAt bs pos (m + n)).take m = bytesAt bs pos m := by
  rw [bytesAt, bytesAt, List.take_take, Nat.min_eq_left (Nat.le_add_right m n)]

lemma drop_bytesAt (bs : List UInt8) (pos m n : Nat) :
    (bytesAt bs pos (m + n)).drop m = bytesAt bs (pos + m) n := by
  rw [bytesAt, bytesAt, List.drop_take, List.drop_drop, Nat.add_sub_cancel_left]

/-! ## Checked reads -/

/-- A computation in two parts succeeds if both parts do. -/
lemma bind_eq_ok {ε α β : Type} {x : Except ε α} {f : α → Except ε β} {b : β} :
    (x >>= f) = .ok b ↔ ∃ a, x = .ok a ∧ f a = .ok b := by
  cases x <;> simp [bind, Except.bind]

variable {archive bs part : List UInt8} {start n limit width a b : Nat}

lemma slice?_eq_some (h : slice? bs start n = some part) :
    part = bytesAt bs start n ∧ (bytesAt bs start n).length = n := by
  rw [slice?] at h
  split_ifs at h with hlength
  cases h
  exact ⟨rfl, hlength⟩

lemma read_eq_ok (h : read bs start n limit = .ok part) :
    part = bytesAt bs start n ∧ (bytesAt bs start n).length = n := by
  rw [read] at h
  split_ifs at h
  split at h
  · next hslice =>
    cases h
    exact slice?_eq_some hslice
  · cases h

lemma field_eq_ok (h : field bs start width = .ok n) : n = numberAt bs start width := by
  rw [field] at h
  split at h
  · next part hslice =>
    cases h
    rw [(slice?_eq_some hslice).1, numberAt]
  · cases h

lemma add_eq_ok_iff : add a b = .ok n ↔ a + b < Numeral.unsigned64End ∧ n = a + b := by
  rw [add]
  split_ifs with h
  · simp [h, eq_comm]
  · simp [h]

lemma read32_eq_ok (h : read32 bs start = .ok n) : n = numberAt bs start 4 := by
  obtain ⟨part, hread, hfield⟩ := bind_eq_ok.mp h
  rw [field_eq_ok hfield, (read_eq_ok hread).1, numberAt, bytesAt_bytesAt bs start (Nat.le_refl 4),
    numberAt, Nat.add_zero]

/-! ## Entries -/

/-- The bytes of the name of the entry at a position. -/
def nameAt (archive : List UInt8) (pos : Nat) : List UInt8 :=
  bytesAt archive (pos + headerLength) (numberAt archive (pos + 26) 2)

/-- The extra fields of the entry at a position. -/
def extraAt (archive : List UInt8) (pos : Nat) : List UInt8 :=
  bytesAt archive (pos + headerLength + numberAt archive (pos + 26) 2)
    (numberAt archive (pos + 28) 2)

/-- One of the two sizes in the header at a position is saturated. -/
def IsSaturatedAt (archive : List UInt8) (pos : Nat) : Prop :=
  numberAt archive (pos + 18) 4 = saturated ∨ numberAt archive (pos + 22) 4 = saturated

/-- Where the stored size of the entry at a position comes from. -/
inductive Entry.IsSized (archive : List UInt8) (directory : Except Failure Directory) (pos : Nat)
    (e : Entry) : Prop where
  /-- From the header. -/
  | narrow (hplain : e.hasDescriptor = false) (hnarrow : ¬ IsSaturatedAt archive pos)
      (hsize : e.storedSize = numberAt archive (pos + 18) 4) (hwide : e.wide = false)
  /-- From the extra fields: the second of the wide sizes. -/
  | wide (hplain : e.hasDescriptor = false) (hsaturated : IsSaturatedAt archive pos)
      (sizes : List Nat) (hsizes : wideSizes (extraAt archive pos) = .ok (some sizes))
      (hsize : sizes[1]? = some e.storedSize) (hwide : e.wide = true)
  /-- From the central directory. -/
  | listed (hdescribed : e.hasDescriptor = true) (d : Directory) (hd : directory = .ok d)
      (sizes : Sizes) (hsizes : d.sizes? e.name = some sizes) (hsize : e.storedSize = sizes.stored)
      (hwide : e.wide = true ↔ IsSaturatedAt archive pos ∨ sizes.wide = true)

/-- The entry at a position, as its bytes tell. -/
structure Entry.StandsAt (archive : List UInt8) (directory : Except Failure Directory) (pos : Nat)
    (e : Entry) : Prop where
  flags_eq : e.flags = numberAt archive (pos + 6) 2
  method_eq : e.method = numberAt archive (pos + 8) 2
  name_eq : e.name = Text.Utf8.decodeLossy (nameAt archive pos)
  length_name : (nameAt archive pos).length = numberAt archive (pos + 26) 2
  dataOffset_eq : e.dataOffset
    = pos + headerLength + numberAt archive (pos + 26) 2 + numberAt archive (pos + 28) 2
  isSized : e.IsSized archive directory pos

variable {directory : Except Failure Directory} {pos : Nat} {e : Entry}

lemma wideSize_eq_ok {name : String} {extra : List UInt8} {index : Nat}
    (h : wideSize name extra index = .ok n) :
    ∃ sizes, wideSizes extra = .ok (some sizes) ∧ sizes[index]? = some n := by
  obtain ⟨found, hfound, h⟩ := bind_eq_ok.mp h
  split at h
  · next size hsize =>
    cases h
    obtain ⟨sizes, rfl, hindex⟩ := Option.bind_eq_some_iff.mp hsize
    exact ⟨sizes, hfound, hindex⟩
  · cases h

lemma headerSizes_eq_ok {name : String} {extra : List UInt8} {compressed uncompressed : Nat}
    {own : Sizes} (h : headerSizes name extra compressed uncompressed = .ok own) :
    (¬ (compressed = saturated ∨ uncompressed = saturated) ∧ own = ⟨compressed, false⟩) ∨
      ((compressed = saturated ∨ uncompressed = saturated) ∧ own.wide = true ∧
        ∃ sizes, wideSizes extra = .ok (some sizes) ∧ sizes[1]? = some own.stored) := by
  rw [headerSizes] at h
  split_ifs at h with hsaturated
  · obtain ⟨stored, hstored, h⟩ := bind_eq_ok.mp h
    cases h
    exact .inr ⟨hsaturated, rfl, wideSize_eq_ok hstored⟩
  · cases h
    exact .inl ⟨hsaturated, rfl⟩

/-- The sizes of an entry come from its header or, if it is described, from the directory. -/
lemma entrySizes_eq_ok {name : String} {described : Bool} {own sizes : Sizes}
    (h : entrySizes directory name described own = .ok sizes) :
    (described = false ∧ sizes = own) ∨
      (described = true ∧ ∃ d listed, directory = .ok d ∧ d.sizes? name = some listed ∧
        sizes = ⟨listed.stored, own.wide || listed.wide⟩) := by
  rw [entrySizes] at h
  split_ifs at h with hdescribed
  · obtain ⟨d, hd, h⟩ := bind_eq_ok.mp h
    split at h
    · next listed hlisted =>
      cases h
      exact .inr ⟨hdescribed, d, listed, hd, hlisted, rfl⟩
    · cases h
  · cases h
    exact .inl ⟨Bool.not_eq_true _ ▸ hdescribed, rfl⟩

/-- **An entry that has been read stands at its position.** -/
theorem standsAt_of_ofArchive (h : Entry.ofArchive archive directory pos = .ok e) :
    e.StandsAt archive directory pos := by
  obtain ⟨header, hheader, h⟩ := bind_eq_ok.mp h
  obtain ⟨flags, hflags, h⟩ := bind_eq_ok.mp h
  obtain ⟨method, hmethod, h⟩ := bind_eq_ok.mp h
  obtain ⟨compressed, hcompressed, h⟩ := bind_eq_ok.mp h
  obtain ⟨uncompressed, huncompressed, h⟩ := bind_eq_ok.mp h
  obtain ⟨nameLength, hnameLength, h⟩ := bind_eq_ok.mp h
  obtain ⟨extraLength, hextraLength, h⟩ := bind_eq_ok.mp h
  obtain ⟨nameStart, hnameStart, h⟩ := bind_eq_ok.mp h
  obtain ⟨nameExtra, hnameExtra, h⟩ := bind_eq_ok.mp h
  obtain ⟨own, hown, h⟩ := bind_eq_ok.mp h
  obtain ⟨sizes, hsizes, h⟩ := bind_eq_ok.mp h
  obtain ⟨dataOffset, hdataOffset, h⟩ := bind_eq_ok.mp h
  cases h
  -- a number in the header is the number at its place in the archive
  have hnumber {i width n : Nat} (h : field header i width = .ok n)
      (hwidth : i + width ≤ headerLength) : n = numberAt archive (pos + i) width := by
    rw [field_eq_ok h, (read_eq_ok hheader).1, numberAt, bytesAt_bytesAt _ _ hwidth, numberAt]
  obtain rfl := hnumber hflags (by decide)
  obtain rfl := hnumber hmethod (by decide)
  obtain rfl := hnumber hcompressed (by decide)
  obtain rfl := hnumber huncompressed (by decide)
  obtain rfl := hnumber hnameLength (by decide)
  obtain rfl := hnumber hextraLength (by decide)
  obtain ⟨-, rfl⟩ := add_eq_ok_iff.mp hnameStart
  obtain ⟨-, rfl⟩ := add_eq_ok_iff.mp hdataOffset
  obtain ⟨rfl, hlength⟩ := read_eq_ok hnameExtra
  rw [take_bytesAt] at hown hsizes ⊢
  rw [drop_bytesAt] at hown
  refine ⟨rfl, rfl, rfl, ?_, by simp only [Nat.add_assoc], ?_⟩
  · have hname := congrArg List.length (take_bytesAt archive (pos + headerLength)
      (numberAt archive (pos + 26) 2) (numberAt archive (pos + 28) 2))
    rw [List.length_take, hlength] at hname
    rw [nameAt, ← hname]
    omega
  · have hsource := headerSizes_eq_ok hown
    obtain ⟨hplain, rfl⟩ | ⟨hdescribed, d, listed, hd, hlisted, rfl⟩ := entrySizes_eq_ok hsizes
    · obtain ⟨hnarrow, rfl⟩ | ⟨hsaturated, hwide, fields, hfields, hsize⟩ := hsource
      · exact .narrow hplain hnarrow rfl rfl
      · exact .wide hplain hsaturated fields hfields hsize hwide
    · refine .listed hdescribed d hd listed hlisted rfl ?_
      rw [Bool.or_eq_true]
      refine or_congr_left ?_
      obtain ⟨hnarrow, rfl⟩ | ⟨hsaturated, hwide, -⟩ := hsource
      · exact iff_of_false nofun hnarrow
      · exact iff_of_true hwide hsaturated

/-- The bytes at a position tell no more than one stored size. -/
lemma Entry.IsSized.unique {e' : Entry} (h : e.IsSized archive directory pos)
    (h' : e'.IsSized archive directory pos) (hflags : e.flags = e'.flags) (hname : e.name = e'.name) :
    e.storedSize = e'.storedSize ∧ e.wide = e'.wide := by
  have hdescribed : e.hasDescriptor = e'.hasDescriptor := by
    rw [hasDescriptor, hasDescriptor, hflags]
  cases h with
  | narrow hplain hnarrow hsize hwide =>
    rw [hdescribed] at hplain
    cases h' with
    | narrow _ _ hsize' hwide' => exact ⟨hsize.trans hsize'.symm, hwide.trans hwide'.symm⟩
    | wide _ hsaturated => exact absurd hsaturated hnarrow
    | listed hdescribed' => exact absurd (hplain.symm.trans hdescribed') nofun
  | wide hplain hsaturated sizes hsizes hsize hwide =>
    rw [hdescribed] at hplain
    cases h' with
    | narrow _ hnarrow => exact absurd hsaturated hnarrow
    | wide _ _ sizes' hsizes' hsize' hwide' =>
      obtain rfl := Option.some.inj (Except.ok.inj (hsizes.symm.trans hsizes'))
      exact ⟨Option.some.inj (hsize.symm.trans hsize'), hwide.trans hwide'.symm⟩
    | listed hdescribed' => exact absurd (hplain.symm.trans hdescribed') nofun
  | listed hdescribed' d hd sizes hsizes hsize hwide =>
    rw [hdescribed] at hdescribed'
    cases h' with
    | narrow hplain => exact absurd (hplain.symm.trans hdescribed') nofun
    | wide hplain => exact absurd (hplain.symm.trans hdescribed') nofun
    | listed _ d' hd' sizes' hsizes' hsize' hwide' =>
      obtain rfl := Except.ok.inj (hd.symm.trans hd')
      rw [hname] at hsizes
      obtain rfl := Option.some.inj (hsizes.symm.trans hsizes')
      exact ⟨hsize.trans hsize'.symm, Bool.eq_iff_iff.mpr (hwide.trans hwide'.symm)⟩

/-- No two entries stand at one position. -/
lemma Entry.StandsAt.unique {e' : Entry} (h : e.StandsAt archive directory pos)
    (h' : e'.StandsAt archive directory pos) : e = e' := by
  have hflags := h.flags_eq.trans h'.flags_eq.symm
  have hname := h.name_eq.trans h'.name_eq.symm
  obtain ⟨hsize, hwide⟩ := h.isSized.unique h'.isSized hflags hname
  rw [Entry.mk.injEq]
  exact ⟨hname, hflags, h.method_eq.trans h'.method_eq.symm,
    h.dataOffset_eq.trans h'.dataOffset_eq.symm, hsize, hwide⟩

/-! ## Behind an entry -/

/-- The length of the data descriptor at a position. -/
def descriptorSizeAt (archive : List UInt8) (pos : Nat) (wide : Bool) : Nat :=
  (if pos + 4 ≤ archive.length ∧ numberAt archive pos 4 = descriptorSignature then 4 else 0) + 4
    + if wide then 16 else 8

/-- The length of the data descriptor of an entry, if it has one. -/
def Entry.descriptorSize (e : Entry) (archive : List UInt8) : Nat :=
  if e.hasDescriptor then descriptorSizeAt archive (e.dataOffset + e.storedSize) e.wide else 0

lemma descriptorLength_eq_ok {wide : Bool} (h : descriptorLength archive pos wide = .ok n) :
    n = descriptorSizeAt archive pos wide := by
  obtain ⟨stop, hstop, h⟩ := bind_eq_ok.mp h
  obtain ⟨-, rfl⟩ := add_eq_ok_iff.mp hstop
  rw [descriptorSizeAt]
  by_cases hroom : pos + 4 ≤ archive.length
  · rw [if_pos hroom] at h
    obtain ⟨signature, hsignature, h⟩ := bind_eq_ok.mp h
    obtain rfl := read32_eq_ok hsignature
    by_cases hmark : numberAt archive pos 4 = descriptorSignature
    · rw [if_pos hmark] at h
      rw [if_pos ⟨hroom, hmark⟩]
      exact (Except.ok.inj h).symm
    · rw [if_neg hmark] at h
      rw [if_neg fun hboth => hmark hboth.2, Nat.zero_add]
      exact (Except.ok.inj h).symm
  · rw [if_neg hroom] at h
    rw [if_neg fun hboth => hroom hboth.1, Nat.zero_add]
    exact (Except.ok.inj h).symm

lemma stop_eq_ok (h : e.stop archive (e.dataOffset + e.storedSize) = .ok n) :
    n = e.dataOffset + e.storedSize + e.descriptorSize archive := by
  rw [Entry.stop] at h
  rw [Entry.descriptorSize]
  split_ifs at h ⊢
  · obtain ⟨size, hsize, h⟩ := bind_eq_ok.mp h
    rw [(add_eq_ok_iff.mp h).2, descriptorLength_eq_ok hsize]
  · exact (Except.ok.inj h).symm

end FleetAgent.Archive
