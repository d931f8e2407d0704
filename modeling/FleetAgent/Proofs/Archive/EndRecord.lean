/-
# The last end record

The tail of an archive is searched by its bytes, once from the front, for the last place where an
end record begins (`EndsAt`).  The search finds it (`lastEnd?_eq_some_iff`), and the bytes that
follow the record do not matter as long as none of them begins another one.

The same place is found by going from the last possible position backwards and comparing the number
that is read at each of them (`lastEndFromBack`).  There every number is read with its bounds
checked and every difference must not be negative, and no check ever fails
(`directoryExtent_eq_backwards`).
-/
import FleetAgent.Proofs.Archive.Directory
import FleetAgent.Proofs.Archive.Inside

namespace FleetAgent.Archive

/-- An end record begins at a position of the tail, with room for its fixed part. -/
def EndsAt (tail : List UInt8) (i : Nat) : Prop :=
  i + endLength ≤ tail.length ∧ numberAt tail i 4 = endSignature

/-- The last end record of the tail begins at a position. -/
def IsLastEnd (tail : List UInt8) (i : Nat) : Prop :=
  EndsAt tail i ∧ ∀ j, i < j → ¬ EndsAt tail j

variable {archive tail bs : List UInt8} {b : UInt8} {i j : Nat}

/-! ## From the front -/

lemma numberAt_cons_succ (b : UInt8) (bs : List UInt8) (i width : Nat) :
    numberAt (b :: bs) (i + 1) width = numberAt bs i width := rfl

lemma endsAt_cons_succ : EndsAt (b :: bs) (i + 1) ↔ EndsAt bs i := by
  rw [EndsAt, EndsAt, numberAt_cons_succ, List.length_cons]
  exact and_congr_left fun _ => by omega

/-- The first bytes of a text tell whether an end record begins with them. -/
lemma beginsEnd_iff : beginsEnd bs = true ↔ EndsAt bs 0 := by
  by_cases hlength : bs.length < endLength
  · rw [beginsEnd_eq_false hlength]
    exact iff_of_false Bool.false_ne_true fun h => by have := h.1; omega
  -- there are four bytes to compare
  obtain ⟨a, b, c, d, rest, rfl⟩ : ∃ a b c d rest, bs = a :: b :: c :: d :: rest := by
    rcases bs with _ | ⟨a, _ | ⟨b, _ | ⟨c, _ | ⟨d, rest⟩⟩⟩⟩
    case cons.cons.cons.cons => exact ⟨a, b, c, d, rest, rfl⟩
    all_goals simp [endLength] at hlength
  have hrest : endLength - 5 < rest.length := by
    simp only [List.length_cons, endLength] at hlength ⊢
    omega
  have hnumber : numberAt (a :: b :: c :: d :: rest) 0 4 = number [a, b, c, d] := rfl
  have hbytes : number [a, b, c, d] = endSignature
      ↔ a = 0x50 ∧ b = 0x4b ∧ c = 0x05 ∧ d = 0x06 := by
    have ha := a.toNat_lt
    have hb := b.toNat_lt
    have hc := c.toNat_lt
    have hd := d.toNat_lt
    simp only [number, endSignature, ← UInt8.toNat_inj]
    constructor
    · intro h
      refine ⟨?_, ?_, ?_, ?_⟩ <;> simp <;> omega
    · rintro ⟨ha, hb, hc, hd⟩
      simp [ha, hb, hc, hd]
  rw [EndsAt, hnumber, hbytes]
  constructor
  · intro h
    unfold beginsEnd at h
    split at h
    · next heq =>
      simp only [List.cons.injEq] at heq
      exact ⟨by simpa using hlength, heq.1, heq.2.1, heq.2.2.1, heq.2.2.2.1⟩
    · cases h
  · rintro ⟨-, rfl, rfl, rfl, rfl⟩
    simpa [beginsEnd] using hrest

/-- A search from the front gives the last end record, or what has been found before. -/
lemma lastEndFrom_spec (tail : List UInt8) (i : Nat) (found : Option Nat) :
    (∃ j, IsLastEnd tail j ∧ lastEndFrom tail i found = some (i + j)) ∨
      ((∀ j, ¬ EndsAt tail j) ∧ lastEndFrom tail i found = found) := by
  induction tail generalizing i found with
  | nil => exact .inr ⟨fun j h => absurd h.1 (by simp [endLength]), rfl⟩
  | cons b bs ih =>
    rw [lastEndFrom]
    obtain ⟨j, ⟨hends, hlast⟩, heq⟩ | ⟨hnone, heq⟩ :=
      ih (i + 1) (if beginsEnd (b :: bs) then some i else found)
    · refine .inl ⟨j + 1, ⟨endsAt_cons_succ.mpr hends, fun k hk h => ?_⟩, ?_⟩
      · obtain ⟨k, rfl⟩ : ∃ m, k = m + 1 := ⟨k - 1, by omega⟩
        exact hlast k (by omega) (endsAt_cons_succ.mp h)
      · rw [heq, Nat.add_right_comm, Nat.add_assoc]
    · -- no record begins later, so the one that may begin here is the last one
      have hlater : ∀ k, 0 < k → ¬ EndsAt (b :: bs) k := by
        intro k hk h
        obtain ⟨k, rfl⟩ : ∃ m, k = m + 1 := ⟨k - 1, by omega⟩
        exact hnone k (endsAt_cons_succ.mp h)
      by_cases hbegins : beginsEnd (b :: bs) = true
      · rw [if_pos hbegins] at heq ⊢
        exact .inl ⟨0, ⟨beginsEnd_iff.mp hbegins, hlater⟩, heq⟩
      · rw [if_neg hbegins] at heq ⊢
        refine .inr ⟨fun k h => ?_, heq⟩
        rcases Nat.eq_zero_or_pos k with rfl | hk
        · exact hbegins (beginsEnd_iff.mpr h)
        · exact hlater k hk h

lemma IsLastEnd.unique (hi : IsLastEnd tail i) (hj : IsLastEnd tail j) : i = j := by
  rcases Nat.lt_trichotomy i j with h | h | h
  · exact absurd hj.1 (hi.2 j h)
  · exact h
  · exact absurd hi.1 (hj.2 i h)

/-- **The last end record is found.** -/
theorem lastEnd?_eq_some_iff : lastEnd? tail = some i ↔ IsLastEnd tail i := by
  rw [lastEnd?]
  obtain ⟨j, hj, heq⟩ | ⟨hnone, heq⟩ := lastEndFrom_spec tail 0 none
  · rw [heq, Nat.zero_add, Option.some.injEq]
    exact ⟨fun h => h ▸ hj, fun h => hj.unique h⟩
  · rw [heq]
    exact iff_of_false (Option.some_ne_none i).symm fun h => hnone i h.1

lemma lastEnd?_eq_none_iff : lastEnd? tail = none ↔ ∀ i, ¬ EndsAt tail i := by
  rw [lastEnd?]
  obtain ⟨j, hj, heq⟩ | ⟨hnone, heq⟩ := lastEndFrom_spec tail 0 none
  · rw [heq]
    exact iff_of_false (Option.some_ne_none _) fun h => h j hj.1
  · exact iff_of_true heq hnone

/-! ## From the back -/

/-- A difference, which must not be negative. -/
def sub (a b : Nat) : Except Failure Nat :=
  if b ≤ a then .ok (a - b) else .error (.fault .overflow)

/-- Looks for the signature of an end record from position `i` of the tail backwards. -/
def lastEndFromBack (tail : List UInt8) : Nat → Except Failure (Option Nat)
  | 0 => do
    if (← field tail 0 4) = endSignature then return some 0 else return none
  | i + 1 => do
    if (← field tail (i + 1) 4) = endSignature then return some (i + 1)
    else lastEndFromBack tail i

/-- The tail of an archive, with the position of its last end record. -/
def tailBackwards (archive : List UInt8) : Except Failure (List UInt8 × Option Nat) := do
  let len := archive.length
  let tailLength := min len (endLength + maxComment)
  let start ← sub len tailLength
  let tail ← read archive start tailLength len
  let last ← sub tail.length endLength
  return (tail, ← lastEndFromBack tail last)

/-- The offset and the size of the directory, where every number and every difference on the way is
checked. -/
def extentBackwards (archive : List UInt8) : Except Failure (Nat × Nat) := do
  if archive.length < endLength then .error (.corrupt .tooShort)
  else
    let (tail, found) ← tailBackwards archive
    match found with
    | none => .error (.corrupt .noEndRecord)
    | some i =>
      let size ← field tail (i + 12) 4
      let offset ← field tail (i + 16) 4
      if offset ≠ saturated ∧ size ≠ saturated then .ok (offset, size)
      else wideExtent archive tail i

/-- Going backwards, the last record that begins at or before a position is found. -/
lemma lastEndFromBack_spec (hi : i + endLength ≤ tail.length) :
    (∃ j ≤ i, EndsAt tail j ∧ (∀ k, j < k → k ≤ i → ¬ EndsAt tail k) ∧
        lastEndFromBack tail i = .ok (some j)) ∨
      ((∀ j ≤ i, ¬ EndsAt tail j) ∧ lastEndFromBack tail i = .ok none) := by
  have hfield : field tail i 4 = .ok (numberAt tail i 4) :=
    field_eq_numberAt (by simp only [endLength] at hi; omega)
  induction i with
  | zero =>
    by_cases hends : numberAt tail 0 4 = endSignature
    · refine .inl ⟨0, Nat.le_refl 0, ⟨hi, hends⟩, fun k hk hk' => by omega, ?_⟩
      simp [lastEndFromBack, hfield, hends, bind, Except.bind, pure, Except.pure]
    · refine .inr ⟨fun j hj h => hends (Nat.le_zero.mp hj ▸ h.2), ?_⟩
      simp [lastEndFromBack, hfield, hends, bind, Except.bind, pure, Except.pure]
  | succ i ih =>
    by_cases hends : numberAt tail (i + 1) 4 = endSignature
    · refine .inl ⟨i + 1, Nat.le_refl _, ⟨hi, hends⟩, fun k hk hk' => by omega, ?_⟩
      simp [lastEndFromBack, hfield, hends, bind, Except.bind, pure, Except.pure]
    · have hback : lastEndFromBack tail (i + 1) = lastEndFromBack tail i := by
        simp [lastEndFromBack, hfield, hends, bind, Except.bind]
      have hi' : i + endLength ≤ tail.length := by omega
      rw [hback]
      obtain ⟨j, hj, hlast, hbetween, heq⟩ | ⟨hnone, heq⟩ :=
        ih hi' (field_eq_numberAt (by simp only [endLength] at hi'; omega))
      · refine .inl ⟨j, by omega, hlast, fun k hk hk' h => ?_, heq⟩
        rcases Nat.lt_or_eq_of_le hk' with hk' | rfl
        · exact hbetween k hk (by omega) h
        · exact hends h.2
      · refine .inr ⟨fun j hj h => ?_, heq⟩
        rcases Nat.lt_or_eq_of_le hj with hj | rfl
        · exact hnone j (by omega) h
        · exact hends h.2

/-- Both ways of searching a tail find the same record. -/
lemma lastEndFromBack_eq (h : endLength ≤ tail.length) :
    lastEndFromBack tail (tail.length - endLength) = .ok (lastEnd? tail) := by
  have hinside : ∀ {j}, EndsAt tail j → j ≤ tail.length - endLength :=
    fun hj => by have := hj.1; omega
  have hroom : tail.length - endLength + endLength ≤ tail.length :=
    Nat.le_of_eq (Nat.sub_add_cancel h)
  obtain ⟨j, -, hj, hlast, heq⟩ | ⟨hnone, heq⟩ := lastEndFromBack_spec hroom
  · rw [heq, lastEnd?_eq_some_iff.mpr ⟨hj, fun k hk h => hlast k hk (hinside h) h⟩]
  · rw [heq, lastEnd?_eq_none_iff.mpr fun j h => hnone j (hinside h) h]

/-- The part of an archive in which the end record is looked for. -/
def tailOf (archive : List UInt8) : List UInt8 :=
  bytesAt archive (archive.length - min archive.length (endLength + maxComment))
    (min archive.length (endLength + maxComment))

lemma length_tailOf (archive : List UInt8) :
    (tailOf archive).length = min archive.length (endLength + maxComment) :=
  length_bytesAt (by omega)

lemma read_tailOf (hfile : archive.length < Numeral.signed64End) :
    read archive (archive.length - min archive.length (endLength + maxComment))
      (min archive.length (endLength + maxComment)) archive.length = .ok (tailOf archive) :=
  read_eq_bytesAt (by omega) (Nat.min_le_left _ _) (by omega)

/-- The tail is inside the archive, and the search stays inside the tail. -/
lemma tailBackwards_eq (hfile : archive.length < Numeral.signed64End)
    (hlength : endLength ≤ archive.length) :
    tailBackwards archive = .ok (tailOf archive, lastEnd? (tailOf archive)) := by
  have hstart : sub archive.length (min archive.length (endLength + maxComment))
      = .ok (archive.length - min archive.length (endLength + maxComment)) :=
    if_pos (Nat.min_le_left _ _)
  have hroom : endLength ≤ (tailOf archive).length := by
    rw [length_tailOf]
    exact Nat.le_min.mpr ⟨hlength, Nat.le_add_right _ _⟩
  have hlast : sub (tailOf archive).length endLength = .ok ((tailOf archive).length - endLength) :=
    if_pos hroom
  simp only [tailBackwards, hstart, read_tailOf hfile, hlast, lastEndFromBack_eq hroom, bind,
    Except.bind, pure, Except.pure]

/-- **The directory is found with every access checked.** -/
theorem directoryExtent_eq_backwards (hfile : archive.length < Numeral.signed64End) :
    directoryExtent archive = extentBackwards archive := by
  by_cases hlength : archive.length < endLength
  · simp only [directoryExtent, extentBackwards, hlength, if_true]
  · have htail := tailBackwards_eq hfile (Nat.not_lt.mp hlength)
    cases hlast : lastEnd? (tailOf archive) with
    | none =>
      rw [hlast] at htail
      simp only [directoryExtent, extentBackwards, hlength, if_false, read_tailOf hfile, htail,
        hlast, bind, Except.bind]
    | some i =>
      rw [hlast] at htail
      simp only [directoryExtent, extentBackwards, hlength, if_false, read_tailOf hfile, htail,
        hlast, bind, Except.bind]

end FleetAgent.Archive
