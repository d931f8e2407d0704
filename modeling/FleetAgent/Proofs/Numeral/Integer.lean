/-
# Decimal numerals

What the readers of numerals accept, and with which value: a nonempty row of digits, behind an
optional sign where one is allowed (`IsDecimal`).  Every number is read back from the numeral that
it is written as.
-/
import FleetAgent.Numeral.Integer
import Mathlib.Data.List.Basic
import Mathlib.Tactic.Common

namespace FleetAgent.Numeral

variable {s : List Char} {n : Nat}

/-! ## Digits -/

lemma digit?_eq (c : Char) :
    digit? c = if c.isDigit then some (c.toNat - '0'.toNat) else none := by
  rw [digit?]
  refine if_congr ?_ rfl rfl
  rw [Char.isDigit, Bool.and_eq_true, decide_eq_true_iff, decide_eq_true_iff]
  exact Iff.rfl

lemma naturalAux_eq (s : List Char) (n : Nat) :
    naturalAux s n = if s.all Char.isDigit then some (Nat.ofDigitChars 10 s n) else none := by
  induction s generalizing n with
  | nil => rfl
  | cons c s ih =>
    rw [naturalAux, digit?_eq, List.all_cons, Nat.ofDigitChars_cons]
    by_cases hc : c.isDigit
    · rw [if_pos hc, hc, Bool.true_and]
      exact ih _
    · rw [if_neg hc, eq_false_of_ne_true hc, Bool.false_and]
      rfl

/-- A row of digits denotes a number. -/
structure IsDigits (s : List Char) (n : Nat) : Prop where
  ne_nil : s ≠ []
  digits : ∀ c ∈ s, c.isDigit = true
  value : Nat.ofDigitChars 10 s 0 = n

lemma natural?_eq_some_iff : natural? s = some n ↔ IsDigits s n := by
  rw [natural?, naturalAux_eq]
  constructor
  · intro h
    split_ifs at h with hnil hall
    exact ⟨by simpa using hnil, List.all_eq_true.mp hall, Option.some.inj h⟩
  · rintro ⟨hnil, hdigits, rfl⟩
    rw [if_neg (by simpa using hnil), if_pos (List.all_eq_true.mpr hdigits)]

lemma isDigits_toDigits (n : Nat) : IsDigits (Nat.toDigits 10 n) n where
  ne_nil := Nat.toDigits_ne_nil
  digits _ := Nat.isDigit_of_mem_toDigits (by decide) (Nat.le_refl 10)
  value := Nat.ofDigitChars_toDigits (by decide) (Nat.le_refl 10)

/-! ## Signs -/

/-- A text denotes a number in decimal notation: by a row of digits, with an optional sign in
front. -/
inductive IsDecimal : List Char → Int → Prop where
  | plain (s : List Char) (n : Nat) (h : IsDigits s n) : IsDecimal s n
  | plus (s : List Char) (n : Nat) (h : IsDigits s n) : IsDecimal ('+' :: s) n
  | minus (s : List Char) (n : Nat) (h : IsDigits s n) : IsDecimal ('-' :: s) (-n)

lemma IsDigits.head_ne {c d : Char} (h : IsDigits (c :: s) n) (hd : d.isDigit = false) : c ≠ d := by
  rintro rfl
  exact Bool.false_ne_true (hd.symm.trans (h.digits _ List.mem_cons_self))

lemma integer?_eq_some_iff {m : Int} : integer? s = some m ↔ IsDecimal s m := by
  constructor
  · intro h
    unfold integer? at h
    split at h <;> obtain ⟨n, hn, rfl⟩ := Option.map_eq_some_iff.mp h <;>
      rw [natural?_eq_some_iff] at hn
    · exact .plus _ n hn
    · exact .minus _ n hn
    · exact .plain _ n hn
  · rintro (⟨s, n, h⟩ | ⟨s, n, h⟩ | ⟨s, n, h⟩)
    · cases s with
      | nil => exact absurd rfl h.ne_nil
      | cons c s =>
        have hplus : c ≠ '+' := h.head_ne rfl
        have hminus : c ≠ '-' := h.head_ne rfl
        unfold integer?
        split
        · next heq => exact absurd (List.cons.inj heq).1 hplus
        · next heq => exact absurd (List.cons.inj heq).1 hminus
        · rw [natural?_eq_some_iff.mpr h]
          rfl
    · rw [integer?, natural?_eq_some_iff.mpr h]
      rfl
    · rw [integer?, natural?_eq_some_iff.mpr h]
      rfl

/-- Whether a number has 32 bits. -/
def IsInt32 (n : Int) : Prop := -(signed32End : Int) ≤ n ∧ n < signed32End

lemma int32?_eq_some_iff {m : Int} : int32? s = some m ↔ IsDecimal s m ∧ IsInt32 m := by
  rw [int32?, ← integer?_eq_some_iff]
  cases integer? s with
  | none => simp
  | some n =>
    simp only [Option.some.injEq, IsInt32]
    split_ifs with h
    · simp only [Option.some.injEq]
      exact ⟨fun hn => ⟨hn, hn ▸ h⟩, And.left⟩
    · simp only [false_iff]
      rintro ⟨rfl, hm⟩
      exact h hm

/-- A text denotes a number of 64 bits without a sign of its own: a plus sign may stand in front of
the digits. -/
inductive IsUnsigned64 : List Char → Nat → Prop where
  | plain (s : List Char) (n : Nat) (h : IsDigits s n) (hsize : n < unsigned64End) :
      IsUnsigned64 s n
  | plus (s : List Char) (n : Nat) (h : IsDigits s n) (hsize : n < unsigned64End) :
      IsUnsigned64 ('+' :: s) n

lemma unsigned64?_plus :
    unsigned64? ('+' :: s) = (natural? s).filter fun n => n < unsigned64End := by
  rw [unsigned64?]
  cases natural? s <;> simp [Option.filter]

lemma unsigned64?_of_ne (h : ∀ digits, s ≠ '+' :: digits) :
    unsigned64? s = (natural? s).filter fun n => n < unsigned64End := by
  unfold unsigned64?
  split
  · next digits => exact absurd rfl (h digits)
  · dsimp only
    cases natural? s <;> simp [Option.filter]

lemma unsigned64?_eq_some_iff : unsigned64? s = some n ↔ IsUnsigned64 s n := by
  have hbounded {digits : List Char} :
      (natural? digits).filter (fun n => n < unsigned64End) = some n ↔
        IsDigits digits n ∧ n < unsigned64End := by
    rw [Option.filter_eq_some_iff, natural?_eq_some_iff, decide_eq_true_iff]
  constructor
  · intro h
    by_cases hplus : ∃ digits, s = '+' :: digits
    · obtain ⟨digits, rfl⟩ := hplus
      rw [unsigned64?_plus] at h
      obtain ⟨hdigits, hsize⟩ := hbounded.mp h
      exact .plus digits n hdigits hsize
    · rw [unsigned64?_of_ne (not_exists.mp hplus)] at h
      obtain ⟨hdigits, hsize⟩ := hbounded.mp h
      exact .plain s n hdigits hsize
  · rintro (⟨s, n, h, hsize⟩ | ⟨s, n, h, hsize⟩)
    · have hplain (digits : List Char) : s ≠ '+' :: digits := by
        rintro rfl
        exact h.head_ne rfl rfl
      rw [unsigned64?_of_ne hplain]
      exact hbounded.mpr ⟨h, hsize⟩
    · rw [unsigned64?_plus]
      exact hbounded.mpr ⟨h, hsize⟩

/-! ## Written numbers -/

lemma toList_toString_nat (n : Nat) : (toString (n : Int)).toList = Nat.toDigits 10 n :=
  Nat.toList_repr

lemma toList_toString_neg (n : Nat) :
    (toString (Int.negSucc n)).toList = '-' :: Nat.toDigits 10 (n + 1) := by
  rw [← Nat.toList_repr]
  exact String.toList_append

/-- A number is read back from the numeral that it is written as. -/
lemma isDecimal_toString (m : Int) : IsDecimal (toString m).toList m := by
  cases m with
  | ofNat n =>
    rw [Int.ofNat_eq_natCast, toList_toString_nat]
    exact .plain _ n (isDigits_toDigits n)
  | negSucc n =>
    rw [toList_toString_neg]
    exact .minus _ (n + 1) (isDigits_toDigits (n + 1))

/-- Every character of a written number is a digit or a sign. -/
lemma isDigit_or_of_mem_toString {m : Int} {c : Char} (h : c ∈ (toString m).toList) :
    c.isDigit = true ∨ c = '-' := by
  have hdigits (n : Nat) (hc : c ∈ Nat.toDigits 10 n) : c.isDigit = true :=
    (isDigits_toDigits n).digits c hc
  cases m with
  | ofNat n =>
    rw [Int.ofNat_eq_natCast, toList_toString_nat] at h
    exact .inl (hdigits n h)
  | negSucc n =>
    rw [toList_toString_neg] at h
    rcases List.mem_cons.mp h with rfl | h
    · exact .inr rfl
    · exact .inl (hdigits (n + 1) h)

end FleetAgent.Numeral
