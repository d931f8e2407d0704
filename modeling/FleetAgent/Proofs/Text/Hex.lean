/-
# Hexadecimal texts

Which texts denote bytes: those of hexadecimal digits, in either case and with two digits for each
byte (`isSome_decodeAux_iff`, `length_of_decodeAux`).  The value of a digit is its place among the
sixteen capital digits (`value?_eq_some_iff`).
-/
import FleetAgent.Text.Hex
import Mathlib.Algebra.Group.Nat.Even
import Mathlib.Tactic.Common
import Mathlib.Tactic.IntervalCases
import Mathlib.Tactic.SplitIfs

namespace FleetAgent.Text.Hex

variable {s : List Char} {acc bytes : List UInt8} {a b c : Char}

/-- A hexadecimal digit of either case. -/
def IsDigit (c : Char) : Prop := '0' ≤ c ∧ c ≤ '9' ∨ 'A' ≤ c ∧ c ≤ 'F' ∨ 'a' ≤ c ∧ c ≤ 'f'

instance (c : Char) : Decidable (IsDigit c) :=
  inferInstanceAs (Decidable ('0' ≤ c ∧ c ≤ '9' ∨ 'A' ≤ c ∧ c ≤ 'F' ∨ 'a' ≤ c ∧ c ≤ 'f'))

lemma isSome_value?_iff : (value? c).isSome = true ↔ IsDigit c := by
  have hrange (a b : Char) : a ≤ c ∧ c ≤ b ↔ a.toNat ≤ c.toNat ∧ c.toNat ≤ b.toNat := Iff.rfl
  rw [IsDigit, hrange, hrange, hrange, value?]
  simp only [Char.reduceToNat]
  split_ifs <;> simp [*]

lemma isDigit_of_value? {x : Nat} (h : value? c = some x) : IsDigit c :=
  isSome_value?_iff.mp (by rw [h, Option.isSome_some])

/-- Characters that have no value are no pair of digits. -/
lemma not_isDigit_pair (h : ∀ x y, value? a = some x → value? b = some y → False) :
    ¬(IsDigit a ∧ IsDigit b) := by
  rintro ⟨ha, hb⟩
  obtain ⟨x, hx⟩ := Option.isSome_iff_exists.mp (isSome_value?_iff.mpr ha)
  obtain ⟨y, hy⟩ := Option.isSome_iff_exists.mp (isSome_value?_iff.mpr hb)
  exact h x y hx hy

/-! ## Values -/

/-- The digits in the order of their values. -/
def capitals : List Char := "0123456789ABCDEF".toList

/-- The value of a digit of either case. -/
def digitValue (c : Char) : Nat := capitals.idxOf c.toUpper

/-- What holds of the digits of both cases holds of every digit. -/
lemma IsDigit.forall {P : Char → Prop} [DecidablePred P]
    (hall : (capitals ++ ['a', 'b', 'c', 'd', 'e', 'f']).all fun c => P c) (h : IsDigit c) :
    P c := by
  refine of_decide_eq_true (List.all_eq_true.mp hall c ?_)
  have hbetween {a b : Char} (h : a ≤ c ∧ c ≤ b) : a.toNat ≤ c.toNat ∧ c.toNat ≤ b.toNat := h
  rw [← Char.ofNat_toNat c]
  rcases h with h | h | h <;> obtain ⟨hlow, hhigh⟩ := hbetween h <;>
    simp only [Char.reduceToNat] at hlow hhigh <;> interval_cases c.toNat <;> decide

lemma value?_of_isDigit (h : IsDigit c) : value? c = some (digitValue c) :=
  h.forall (P := fun c => value? c = some (digitValue c)) (by decide)

lemma value?_eq_some_iff {x : Nat} : value? c = some x ↔ IsDigit c ∧ digitValue c = x := by
  constructor
  · intro h
    have hdigit := isDigit_of_value? h
    rw [value?_of_isDigit hdigit] at h
    exact ⟨hdigit, Option.some.inj h⟩
  · rintro ⟨hdigit, rfl⟩
    exact value?_of_isDigit hdigit

lemma digitValue_lt (h : IsDigit c) : digitValue c < 16 :=
  h.forall (P := fun c => digitValue c < 16) (by decide)

/-- A digit is written in capitals as the capital digit of its value. -/
lemma toUpper_digit_digitValue (h : IsDigit c) : (digit (digitValue c)).toUpper = c.toUpper :=
  h.forall (P := fun c => (digit (digitValue c)).toUpper = c.toUpper) (by decide)

/-- The capital digit of a value is a digit of that value. -/
lemma isDigit_toUpper_digit :
    ∀ n < 16, IsDigit (digit n).toUpper ∧ digitValue (digit n).toUpper = n := by
  decide

/-! ## Bytes -/

/-- A text of hexadecimal digits. -/
def IsDigits (s : List Char) : Prop := ∀ c ∈ s, IsDigit c

lemma isDigits_cons : IsDigits (c :: s) ↔ IsDigit c ∧ IsDigits s := List.forall_mem_cons

/-- Pairs of digits denote bytes. -/
lemma isSome_decodeAux_iff : (decodeAux s acc).isSome ↔ Even s.length ∧ IsDigits s := by
  fun_induction decodeAux s acc with
  | case1 acc => simp [IsDigits]
  | case2 acc a b cs x y ha hb ih =>
    rw [ih, isDigits_cons, isDigits_cons, List.length_cons, List.length_cons]
    simp [isDigit_of_value? ha, isDigit_of_value? hb, Nat.even_add_one]
  | case3 acc a b cs hno =>
    simp only [Option.isSome_none, Bool.false_eq_true, false_iff, isDigits_cons]
    exact fun h => not_isDigit_pair hno ⟨h.2.1, h.2.2.1⟩
  | case4 => simp

lemma length_of_decodeAux (h : decodeAux s acc = some bytes) :
    2 * bytes.length = 2 * acc.length + s.length := by
  fun_induction decodeAux s acc with
  | case1 acc =>
    obtain rfl := Option.some.inj h
    simp
  | case2 acc a b cs x y ha hb ih =>
    have hlength := ih h
    simp only [List.length_cons] at hlength ⊢
    omega
  | case3 => exact nomatch h
  | case4 => exact nomatch h

end FleetAgent.Text.Hex
