/-
# Base64 is read back

Three bytes make four letters, and one or two bytes that remain make two or three, by the same
division of a number into digits (`group`, `pair`, `single`).  A text is read as some bytes exactly
if it is what these bytes are written as (`decode?_eq_some_iff`), so every row of bytes is read
back, and no other text stands for it.
-/
import FleetAgent.Text.Base64
import Mathlib.Tactic.Common

namespace FleetAgent.Text.Base64

/-! ## Letters -/

lemma value?_letter : ∀ n < 64, value? (letter n) = some n := by
  decide

lemma letter_ne_pad : ∀ n < 64, letter n ≠ '=' := by
  decide

lemma letter_value? {c : Char} {n : Nat} (h : value? c = some n) : n < 64 ∧ c = letter n := by
  have hc := Char.ofNat_toNat c
  rw [value?] at h
  split_ifs at h with hupper hlower hdigit hplus hslash <;> obtain rfl := Option.some.inj h
  · refine ⟨by omega, ?_⟩
    rw [letter, if_pos (by omega), Nat.add_sub_cancel' hupper.1, hc]
  · refine ⟨by omega, ?_⟩
    rw [letter, if_neg (by omega), if_pos (by omega), Nat.add_sub_cancel,
      Nat.add_sub_cancel' hlower.1, hc]
  · refine ⟨by omega, ?_⟩
    rw [letter, if_neg (by omega), if_neg (by omega), if_pos (by omega), Nat.add_sub_cancel,
      Nat.add_sub_cancel' hdigit.1, hc]
  · exact ⟨by decide, hplus⟩
  · exact ⟨by decide, hslash⟩

/-! ## Writing and reading -/

/-- The bytes that four letters stand for are written as these letters. -/
lemma letters_group {i j k l : Nat} (hi : i < 64) (hj : j < 64) (hk : k < 64) (hl : l < 64)
    (rest : List UInt8) :
    let n := i * 262144 + j * 4096 + k * 64 + l
    letters
        (UInt8.ofNat (n / 65536) :: UInt8.ofNat (n / 256 % 256) :: UInt8.ofNat (n % 256) :: rest)
      = letter i :: letter j :: letter k :: letter l :: letters rest := by
  intro n
  have hn : (UInt8.ofNat (n / 65536)).toNat * 65536 + (UInt8.ofNat (n / 256 % 256)).toNat * 256
      + (UInt8.ofNat (n % 256)).toNat = n := by
    simp only [UInt8.toNat_ofNat']
    omega
  have hdigits : n / 262144 = i ∧ n / 4096 % 64 = j ∧ n / 64 % 64 = k ∧ n % 64 = l := by
    omega
  rw [letters]
  simp only [hn, hdigits]

/-- So are the two bytes that three letters stand for. -/
lemma letters_pair {i j k : Nat} (hi : i < 64) (hj : j < 64) (hk : k < 64) (hzero : k % 4 = 0) :
    let n := i * 4096 + j * 64 + k
    letters [UInt8.ofNat (n / 1024), UInt8.ofNat (n / 4 % 256)]
      = [letter i, letter j, letter k, '='] := by
  intro n
  have hn : (UInt8.ofNat (n / 1024)).toNat * 1024 + (UInt8.ofNat (n / 4 % 256)).toNat * 4 = n := by
    simp only [UInt8.toNat_ofNat']
    omega
  have hdigits : n / 4096 = i ∧ n / 64 % 64 = j ∧ n % 64 = k := by
    omega
  rw [letters]
  simp only [hn, hdigits]

/-- So is the byte that two letters stand for. -/
lemma letters_single {i j : Nat} (hi : i < 64) (hj : j < 64) (hzero : j % 16 = 0) :
    letters [UInt8.ofNat (i * 4 + j / 16)] = [letter i, letter j, '=', '='] := by
  have hn : (UInt8.ofNat (i * 4 + j / 16)).toNat * 16 = i * 64 + j := by
    simp only [UInt8.toNat_ofNat']
    omega
  have hdigits : (i * 64 + j) / 64 = i ∧ (i * 64 + j) % 64 = j := by
    omega
  rw [letters]
  simp only [hn, hdigits]

/-- What is read as some bytes is what they are written as. -/
lemma eq_letters {cs : List Char} {acc out : List UInt8} (h : bytesAux cs acc = some out) :
    ∃ bs, out = acc.reverse ++ bs ∧ cs = letters bs := by
  fun_induction bytesAux cs acc with
  | case1 acc =>
    exact ⟨[], (Option.some.inj h).symm.trans (List.append_nil _).symm, rfl⟩
  | case2 w x acc i j hx hw hzero =>
    obtain ⟨hi, rfl⟩ := letter_value? hw
    obtain ⟨hj, rfl⟩ := letter_value? hx
    refine ⟨_, ?_, (letters_single hi hj hzero).symm⟩
    rw [← Option.some.inj h, List.reverse_cons]
  | case5 w x y acc hpad i j k hy hx hw n hzero =>
    obtain ⟨hi, rfl⟩ := letter_value? hw
    obtain ⟨hj, rfl⟩ := letter_value? hx
    obtain ⟨hk, rfl⟩ := letter_value? hy
    refine ⟨_, ?_, (letters_pair hi hj hk hzero).symm⟩
    rw [← Option.some.inj h, List.reverse_cons, List.reverse_cons, List.append_assoc]
    rfl
  | case8 w x y z rest acc hsingle hpair i j k l hz hy hx hw n ih =>
    obtain ⟨hi, rfl⟩ := letter_value? hw
    obtain ⟨hj, rfl⟩ := letter_value? hx
    obtain ⟨hk, rfl⟩ := letter_value? hy
    obtain ⟨hl, rfl⟩ := letter_value? hz
    obtain ⟨bs, rfl, rfl⟩ := ih h
    refine ⟨_, ?_, (letters_group hi hj hk hl bs).symm⟩
    simp only [List.reverse_cons, List.append_assoc]
    rfl
  | _ => exact nomatch h

/-- Bytes are what four letters, or fewer at the end, stand for. -/
lemma exists_group (a b c : UInt8) : ∃ i j k l, i < 64 ∧ j < 64 ∧ k < 64 ∧ l < 64 ∧
    let n := i * 262144 + j * 4096 + k * 64 + l
    a = UInt8.ofNat (n / 65536) ∧ b = UInt8.ofNat (n / 256 % 256) ∧ c = UInt8.ofNat (n % 256) := by
  have ha := a.toNat_lt
  have hb := b.toNat_lt
  have hc := c.toNat_lt
  refine ⟨a.toNat / 4, a.toNat % 4 * 16 + b.toNat / 16, b.toNat % 16 * 4 + c.toNat / 64,
    c.toNat % 64, by omega, by omega, by omega, by omega, ?_⟩
  simp only [← UInt8.toNat_inj, UInt8.toNat_ofNat']
  omega

lemma exists_pair (a b : UInt8) : ∃ i j k, i < 64 ∧ j < 64 ∧ k < 64 ∧ k % 4 = 0 ∧
    let n := i * 4096 + j * 64 + k
    a = UInt8.ofNat (n / 1024) ∧ b = UInt8.ofNat (n / 4 % 256) := by
  have ha := a.toNat_lt
  have hb := b.toNat_lt
  refine ⟨a.toNat / 4, a.toNat % 4 * 16 + b.toNat / 16, b.toNat % 16 * 4, by omega, by omega,
    by omega, by omega, ?_⟩
  simp only [← UInt8.toNat_inj, UInt8.toNat_ofNat']
  omega

lemma exists_single (a : UInt8) : ∃ i j, i < 64 ∧ j < 64 ∧ j % 16 = 0 ∧
    a = UInt8.ofNat (i * 4 + j / 16) := by
  have ha := a.toNat_lt
  refine ⟨a.toNat / 4, a.toNat % 4 * 16, by omega, by omega, by omega, ?_⟩
  simp only [← UInt8.toNat_inj, UInt8.toNat_ofNat']
  omega

/-- What bytes are written as is read as these bytes. -/
lemma bytesAux_letters (bs acc : List UInt8) :
    bytesAux (letters bs) acc = some (acc.reverse ++ bs) := by
  induction bs using letters.induct generalizing acc with
  | case1 a b c rest ih =>
    obtain ⟨i, j, k, l, hi, hj, hk, hl, rfl, rfl, rfl⟩ := exists_group a b c
    have hlast := letter_ne_pad l hl
    rw [letters_group hi hj hk hl,
      bytesAux.eq_4 _ _ _ _ _ _ (fun _ hz => absurd hz hlast) (fun hz => absurd hz hlast),
      value?_letter i hi, value?_letter j hj, value?_letter k hk, value?_letter l hl]
    dsimp only
    rw [ih, List.reverse_cons, List.reverse_cons, List.reverse_cons]
    simp only [List.append_assoc]
    rfl
  | case2 a b =>
    obtain ⟨i, j, k, hi, hj, hk, hzero, rfl, rfl⟩ := exists_pair a b
    rw [letters_pair hi hj hk hzero, bytesAux.eq_3 _ _ _ _ (letter_ne_pad k hk),
      value?_letter i hi, value?_letter j hj, value?_letter k hk]
    dsimp only
    rw [if_pos hzero, List.reverse_cons, List.reverse_cons, List.append_assoc]
    rfl
  | case3 a =>
    obtain ⟨i, j, hi, hj, hzero, rfl⟩ := exists_single a
    rw [letters_single hi hj hzero, bytesAux, value?_letter i hi, value?_letter j hj]
    dsimp only
    rw [if_pos hzero, List.reverse_cons]
  | case4 => rw [letters, bytesAux, List.append_nil]

/-- **A text is read as some bytes exactly if they are written as this text.** -/
theorem decode?_eq_some_iff {s : String} {bs : List UInt8} :
    decode? s = some bs ↔ s = encode bs := by
  constructor
  · intro h
    obtain ⟨read, hread, hs⟩ := eq_letters h
    obtain rfl : bs = read := hread
    rw [encode, ← hs, String.ofList_toList]
  · rintro rfl
    rw [decode?, encode, String.toList_ofList, bytesAux_letters]
    rfl

end FleetAgent.Text.Base64
