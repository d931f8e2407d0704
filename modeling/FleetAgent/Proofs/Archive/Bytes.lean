/-
# Reading what stands in a byte string

`StandsAt bs pos part` says that the bytes `part` stand in `bs` from position `pos` on.  It is
the relation between an archive and what its writer has laid out: it splits along appended
parts (`standsAt_append`), and every checked read of the archive gives back the part that stands
where it reads (`read_eq_of_standsAt`, `field_of_fields`).
-/
import FleetAgent.Archive.Writer
import Mathlib.Algebra.GroupWithZero.Nat
import Mathlib.Tactic.Common

namespace FleetAgent.Archive

/-! ## Numbers -/

@[simp] lemma length_bytesOf (width n : Nat) : (bytesOf width n).length = width := by
  induction width generalizing n with
  | zero => rfl
  | succ width ih => simp [bytesOf, ih]

/-- Reading back what `bytesOf` has written cuts the number off at the width. -/
lemma number_bytesOf (width n : Nat) : number (bytesOf width n) = n % 256 ^ width := by
  induction width generalizing n with
  | zero => simp [bytesOf, number, Nat.mod_one]
  | succ width ih =>
    have hlow : (UInt8.ofNat (n % 256)).toNat = n % 256 := by
      simp [UInt8.toNat_ofNat']
    rw [bytesOf, number, hlow, ih, Nat.pow_succ', Nat.mod_mul]

@[simp] lemma fields_nil : fields [] = [] := rfl

lemma fields_cons (f : Nat × Nat) (fs : List (Nat × Nat)) :
    fields (f :: fs) = bytesOf f.1 f.2 ++ fields fs := rfl

@[simp] lemma fields_append (fs gs : List (Nat × Nat)) :
    fields (fs ++ gs) = fields fs ++ fields gs := by
  simp [fields]

@[simp] lemma length_fields (fs : List (Nat × Nat)) :
    (fields fs).length = (fs.map Prod.fst).sum := by
  induction fs with
  | nil => rfl
  | cons f fs ih => simp [fields_cons, ih]

/-! ## Parts of a byte string -/

/-- The bytes `part` stand in `bs` from position `pos` on. -/
def StandsAt (bs : List UInt8) (pos : Nat) (part : List UInt8) : Prop :=
  ∃ before after, bs = before ++ part ++ after ∧ before.length = pos

/-- Of two parts behind each other, the second one begins where the first one ends. -/
lemma standsAt_append {bs p q : List UInt8} {pos : Nat} :
    StandsAt bs pos (p ++ q) ↔ StandsAt bs pos p ∧ StandsAt bs (pos + p.length) q := by
  constructor
  · rintro ⟨before, after, rfl, rfl⟩
    exact ⟨⟨before, q ++ after, by simp, rfl⟩, ⟨before ++ p, after, by simp, by simp⟩⟩
  · rintro ⟨⟨before, after, hp, rfl⟩, ⟨before', after', hq, hlen⟩⟩
    have hcut : before ++ p ++ after = before' ++ (q ++ after') := by
      rw [← hp, hq, List.append_assoc]
    obtain ⟨hbefore, hafter⟩ := List.append_inj hcut (by simpa using hlen.symm)
    exact ⟨before, after', by rw [hp, hafter]; simp, rfl⟩

lemma StandsAt.left {bs p q : List UInt8} {pos : Nat} (h : StandsAt bs pos (p ++ q)) :
    StandsAt bs pos p :=
  (standsAt_append.mp h).1

lemma StandsAt.right {bs p q : List UInt8} {pos : Nat} (h : StandsAt bs pos (p ++ q)) :
    StandsAt bs (pos + p.length) q :=
  (standsAt_append.mp h).2

lemma standsAt_self (bs : List UInt8) : StandsAt bs 0 bs :=
  ⟨[], [], by simp, rfl⟩

lemma StandsAt.length_le {bs part : List UInt8} {pos : Nat} (h : StandsAt bs pos part) :
    pos + part.length ≤ bs.length := by
  obtain ⟨before, after, rfl, rfl⟩ := h
  simp only [List.length_append]
  omega

lemma slice?_eq_of_standsAt {bs part : List UInt8} {pos : Nat} (h : StandsAt bs pos part) :
    slice? bs pos part.length = some part := by
  obtain ⟨before, after, rfl, rfl⟩ := h
  simp [slice?]

/-! ## Checked reads -/

/-- A read within its limit gives what stands there. -/
lemma read_eq_of_standsAt {bs part : List UInt8} {pos limit : Nat} (h : StandsAt bs pos part)
    (hlimit : part.length ≤ limit) (hpos : pos < Numeral.signed64End) :
    read bs pos part.length limit = .ok part := by
  rw [read, if_neg (by omega), if_neg (by omega), slice?_eq_of_standsAt h]

lemma field_eq_of_standsAt {bs part : List UInt8} {pos : Nat} (h : StandsAt bs pos part) :
    field bs pos part.length = .ok (number part) := by
  rw [field, slice?_eq_of_standsAt h]

/-- The number at an index of a row of numbers is read back where the widths before it end. -/
lemma field_of_fields {bs rest : List UInt8} {fs : List (Nat × Nat)} {pos : Nat}
    (h : StandsAt bs pos (fields fs ++ rest)) (k : Nat) {width n : Nat}
    (hk : fs[k]? = some (width, n)) :
    field bs (pos + ((fs.take k).map Prod.fst).sum) width = .ok (n % 256 ^ width) := by
  have hsplit : fs = fs.take k ++ (width, n) :: fs.drop (k + 1) := by
    obtain ⟨hlt, hget⟩ := List.getElem?_eq_some_iff.mp hk
    rw [← hget, ← List.drop_eq_getElem_cons hlt, List.take_append_drop]
  have hbytes : fields fs ++ rest = fields (fs.take k)
      ++ (bytesOf width n ++ (fields (fs.drop (k + 1)) ++ rest)) := by
    conv_lhs => rw [hsplit]
    simp [fields_cons]
  rw [hbytes] at h
  simpa [number_bytesOf] using field_eq_of_standsAt h.right.left

lemma read32_of_standsAt {bs : List UInt8} {pos n : Nat} (h : StandsAt bs pos (bytesOf 4 n))
    (hpos : pos < Numeral.signed64End) : read32 bs pos = .ok (n % 256 ^ 4) := by
  have hread : read bs pos (bytesOf 4 n).length 4 = .ok (bytesOf 4 n) :=
    read_eq_of_standsAt h (by simp) hpos
  rw [length_bytesOf] at hread
  have hfield : field (bytesOf 4 n) 0 4 = .ok (n % 256 ^ 4) := by
    simpa [number_bytesOf] using field_eq_of_standsAt (standsAt_self (bytesOf 4 n))
  rw [read32, hread]
  exact hfield

lemma add_eq_ok {a b : Nat} (h : a + b < Numeral.unsigned64End) : add a b = .ok (a + b) :=
  if_pos h

/-- Sums of positions inside a file stay far below 64 bits. -/
lemma add_eq_ok_of_le {a b size : Nat} (h : a + b ≤ size) (hsize : size < Numeral.signed64End) :
    add a b = .ok (a + b) :=
  add_eq_ok (Nat.lt_of_le_of_lt h (Nat.lt_trans hsize (by decide)))

end FleetAgent.Archive
