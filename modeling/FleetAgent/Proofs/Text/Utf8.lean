/-
# Decoding to an ASCII text

Decoding replaces ill-formed parts, so many byte strings have the same text.  A text of ASCII
characters alone is the exception: it is decoded from its own bytes only.  The reason is that
whatever a longer character begins with ends in a character beyond ASCII or in an ill-formed part
(`Pending.IsLong`), for which the replacement character stands.
-/
import FleetAgent.Text.Utf8
import Mathlib.Tactic.Common
import Mathlib.Tactic.Ring

namespace FleetAgent.Text.Utf8

/-! ## Longer characters -/

/-- The least character that the character in progress can end in. -/
def Pending.least (p : Pending) : Nat :=
  (p.code * 64 + (p.low.toNat - 0x80)) * 64 ^ (p.owed - 1)

/-- The end of the characters that the character in progress can end in. -/
def Pending.limit (p : Pending) : Nat :=
  (p.code * 64 + (p.high.toNat - 0x80) + 1) * 64 ^ (p.owed - 1)

/-- However the character in progress ends, it is one beyond ASCII, and no surrogate. -/
structure Pending.IsLong (p : Pending) : Prop where
  owed_pos : 1 ≤ p.owed
  le_low : 0x80 ≤ p.low.toNat
  le_least : 0x80 ≤ p.least
  valid : p.limit ≤ 0xD800 ∨ (0xE000 ≤ p.least ∧ p.limit ≤ 0x110000)

variable {b : UInt8} {p : Pending}

/-- A first byte is an ASCII character, begins a longer one, or is ill-formed. -/
lemma lead_cases (b : UInt8) :
    (b.toNat < 0x80 ∧ lead b = .single (Char.ofNat b.toNat)) ∨
      (∃ p : Pending, p.IsLong ∧ lead b = .multi p) ∨ lead b = .bad := by
  rw [lead]
  split_ifs with hascii
  · exact .inl ⟨hascii, rfl⟩
  iterate 7
    · refine .inr (.inl ⟨_, ?_, rfl⟩)
      constructor <;> simp [Pending.least, Pending.limit] <;> omega
  · exact .inr (.inr rfl)

lemma toNat_ofNat {n : Nat} (h : n.isValidChar) : (Char.ofNat n).toNat = n := by
  rw [Char.ofNat, dif_pos h]
  rfl

/-- The last byte of a character gives one beyond ASCII. -/
lemma Pending.IsLong.le_toNat (h : p.IsLong) (hlow : p.low ≤ b) (hhigh : b ≤ p.high)
    (hlast : p.owed ≤ 1) : 0x80 ≤ (Char.ofNat (p.code * 64 + (b.toNat - 0x80))).toNat := by
  obtain ⟨howed, -, hleast, hvalid⟩ := h
  have hone : p.owed = 1 := by omega
  simp only [Pending.least, Pending.limit, hone, Nat.sub_self, Nat.pow_zero, Nat.mul_one]
    at hleast hvalid
  rw [UInt8.le_iff_toNat_le] at hlow hhigh
  have hchar : (p.code * 64 + (b.toNat - 0x80)).isValidChar := by
    rw [Nat.isValidChar]
    omega
  rw [toNat_ofNat hchar]
  omega

lemma least_continuation (owed code : Nat) :
    Pending.least ⟨owed, 0x80, 0xBF, code⟩ = code * (64 * 64 ^ (owed - 1)) := by
  simp [Pending.least, Nat.mul_assoc]

lemma limit_continuation (owed code : Nat) :
    Pending.limit ⟨owed, 0x80, 0xBF, code⟩ = (code + 1) * (64 * 64 ^ (owed - 1)) := by
  simp only [Pending.limit, UInt8.reduceToNat]
  ring

/-- One more byte narrows down what the character in progress can end in. -/
lemma Pending.IsLong.next (h : p.IsLong) (hlow : p.low ≤ b) (hhigh : b ≤ p.high)
    (hmore : 1 < p.owed) :
    Pending.IsLong ⟨p.owed - 1, 0x80, 0xBF, p.code * 64 + (b.toNat - 0x80)⟩ := by
  have hpower : 64 * 64 ^ (p.owed - 1 - 1) = 64 ^ (p.owed - 1) := by
    rw [← Nat.pow_succ', Nat.succ_eq_add_one, Nat.sub_add_cancel (by omega)]
  rw [UInt8.le_iff_toNat_le] at hlow hhigh
  have hleast : p.least
      ≤ Pending.least ⟨p.owed - 1, 0x80, 0xBF, p.code * 64 + (b.toNat - 0x80)⟩ := by
    rw [least_continuation, hpower, Pending.least]
    exact Nat.mul_le_mul_right _ (by omega)
  have hlimit : Pending.limit ⟨p.owed - 1, 0x80, 0xBF, p.code * 64 + (b.toNat - 0x80)⟩
      ≤ p.limit := by
    rw [limit_continuation, hpower, Pending.limit]
    exact Nat.mul_le_mul_right _ (by omega)
  refine ⟨Nat.le_sub_one_of_lt hmore, Nat.le_refl _, h.le_least.trans hleast, ?_⟩
  rcases h.valid with hbelow | ⟨habove, hend⟩
  · exact .inl (hlimit.trans hbelow)
  · exact .inr ⟨habove.trans hleast, hlimit.trans hend⟩

/-! ## Pieces -/

/-- A piece whose character, or the character that stands for it, is beyond ASCII. -/
def IsForeign (piece : Option Char) : Prop :=
  0x80 ≤ (piece.getD replacement).toNat

lemma isForeign_none : IsForeign none :=
  show 0x80 ≤ replacement.toNat by decide

/-- What has been found stays, and comes first. -/
lemma exists_found_begin (found : List (Option Char)) (b : UInt8) :
    ∃ more, (Decoder.begin found b).found = more ++ found := by
  rw [Decoder.begin]
  split
  · exact ⟨[_], rfl⟩
  · exact ⟨[], rfl⟩
  · exact ⟨[none], rfl⟩

lemma exists_found_step (d : Decoder) (b : UInt8) :
    ∃ more, (d.step b).found = more ++ d.found := by
  rw [Decoder.step]
  split
  · exact exists_found_begin d.found b
  · next p hpending =>
    by_cases hbounds : p.low ≤ b ∧ b ≤ p.high
    · rw [if_pos hbounds]
      dsimp only
      split
      · exact ⟨[_], rfl⟩
      · exact ⟨[], rfl⟩
    · rw [if_neg hbounds]
      obtain ⟨more, hmore⟩ := exists_found_begin (none :: d.found) b
      exact ⟨more ++ [none], by rw [hmore, List.append_assoc, List.singleton_append]⟩

lemma exists_finish_foldl (bs : List UInt8) (d : Decoder) :
    ∃ later, (bs.foldl Decoder.step d).finish = d.found.reverse ++ later := by
  induction bs generalizing d with
  | nil =>
    rw [List.foldl_nil, Decoder.finish]
    split
    · exact ⟨[], (List.append_nil _).symm⟩
    · exact ⟨[none], by simp⟩
  | cons b bs ih =>
    obtain ⟨later, hlater⟩ := ih (d.step b)
    obtain ⟨more, hmore⟩ := exists_found_step d b
    refine ⟨more.reverse ++ later, ?_⟩
    rw [List.foldl_cons, hlater, hmore, List.reverse_append, List.append_assoc]

/-- A longer character gives a piece beyond ASCII after those that have been found. -/
lemma exists_isForeign (bs : List UInt8) (found : List (Option Char)) (h : p.IsLong) :
    ∃ piece later, IsForeign piece ∧
      (bs.foldl Decoder.step ⟨some p, found⟩).finish = found.reverse ++ piece :: later := by
  induction bs generalizing p with
  | nil => exact ⟨none, [], isForeign_none, by simp [Decoder.finish]⟩
  | cons b bs ih =>
    rw [List.foldl_cons, Decoder.step]
    dsimp only
    by_cases hbounds : p.low ≤ b ∧ b ≤ p.high
    · rw [if_pos hbounds]
      by_cases hlast : p.owed ≤ 1
      · have hforeign : IsForeign (some (Char.ofNat (p.code * 64 + (b.toNat - 0x80)))) := by
          rw [IsForeign, Option.getD_some]
          exact h.le_toNat hbounds.1 hbounds.2 hlast
        obtain ⟨later, hlater⟩ := exists_finish_foldl bs
          ⟨none, some (Char.ofNat (p.code * 64 + (b.toNat - 0x80))) :: found⟩
        rw [if_pos hlast, hlater, List.reverse_cons, List.append_assoc]
        exact ⟨_, later, hforeign, rfl⟩
      · rw [if_neg hlast]
        exact ih (h.next hbounds.1 hbounds.2 (by omega))
    · -- the byte ends an ill-formed part
      obtain ⟨later, hlater⟩ := exists_finish_foldl bs (Decoder.begin (none :: found) b)
      obtain ⟨more, hmore⟩ := exists_found_begin (none :: found) b
      rw [if_neg hbounds, hlater, hmore]
      exact ⟨none, more.reverse ++ later, isForeign_none, by simp⟩

/-- Pieces that are ASCII characters come from the bytes of these. -/
lemma eq_of_finish_foldl {bs : List UInt8} {found pieces : List (Option Char)}
    (hpieces : ∀ piece ∈ pieces, ¬ IsForeign piece)
    (h : (bs.foldl Decoder.step ⟨none, found⟩).finish = found.reverse ++ pieces) :
    bs = pieces.map fun piece => UInt8.ofNat (piece.getD replacement).toNat := by
  induction bs generalizing found pieces with
  | nil =>
    have hnone : pieces = [] := by simpa [Decoder.finish] using h
    rw [hnone]
    rfl
  | cons b bs ih =>
    rw [List.foldl_cons, show Decoder.step ⟨none, found⟩ b = Decoder.begin found b from rfl,
      Decoder.begin] at h
    obtain ⟨hascii, hlead⟩ | ⟨p, hlong, hlead⟩ | hlead := lead_cases b
    · rw [hlead] at h
      obtain ⟨later, hlater⟩ := exists_finish_foldl bs ⟨none, some (Char.ofNat b.toNat) :: found⟩
      rw [List.reverse_cons, List.append_assoc] at hlater
      obtain rfl : pieces = some (Char.ofNat b.toNat) :: later :=
        List.append_cancel_left (h.symm.trans hlater)
      have hbs := ih (fun piece hmem => hpieces piece (.tail _ hmem))
        (hlater.trans (by rw [List.reverse_cons, List.append_assoc]))
      have hchar : (Char.ofNat b.toNat).toNat = b.toNat := toNat_ofNat (.inl (by omega))
      rw [List.map_cons, ← hbs, Option.getD_some, hchar, UInt8.ofNat_toNat]
    · rw [hlead] at h
      obtain ⟨piece, later, hforeign, hlater⟩ := exists_isForeign bs found hlong
      rw [List.append_cancel_left (h.symm.trans hlater)] at hpieces
      exact absurd hforeign (hpieces piece List.mem_cons_self)
    · rw [hlead] at h
      obtain ⟨later, hlater⟩ := exists_finish_foldl bs ⟨none, none :: found⟩
      rw [List.reverse_cons, List.append_assoc] at hlater
      rw [List.append_cancel_left (h.symm.trans hlater)] at hpieces
      exact absurd isForeign_none (hpieces none List.mem_cons_self)

lemma encode_ascii {s : String} (hs : ∀ c ∈ s.toList, c.toNat < 0x80) :
    encode s = s.toList.map fun c => UInt8.ofNat c.toNat := by
  have hmap : s.toList.map String.utf8EncodeChar
      = s.toList.map fun c => [UInt8.ofNat c.toNat] := by
    refine List.map_congr_left fun c hc => ?_
    have hle : c.val.toNat ≤ 127 := Nat.le_of_lt_succ (hs c hc)
    simp only [String.utf8EncodeChar, hle, if_true]
    rfl
  rw [encode, List.map_eq_flatMap, List.flatMap_def, List.flatMap_def, hmap]

lemma pieces_ascii {cs : List Char} (hcs : ∀ c ∈ cs, c.toNat < 0x80)
    (found : List (Option Char)) :
    ((cs.map fun c => UInt8.ofNat c.toNat).foldl Decoder.step ⟨none, found⟩).finish
      = found.reverse ++ cs.map some := by
  induction cs generalizing found with
  | nil => exact (List.append_nil _).symm
  | cons c cs ih =>
    obtain ⟨hc, hrest⟩ := List.forall_mem_cons.mp hcs
    have hbyte : (UInt8.ofNat c.toNat).toNat = c.toNat :=
      UInt8.toNat_ofNat_of_lt (Nat.lt_trans hc (by decide))
    have hstep : Decoder.step ⟨none, found⟩ (UInt8.ofNat c.toNat) = ⟨none, some c :: found⟩ := by
      simp only [Decoder.step, Decoder.begin, lead, hbyte, hc, if_true, Char.ofNat_toNat]
    rw [List.map_cons, List.foldl_cons, hstep, ih hrest, List.reverse_cons, List.append_assoc]
    rfl

/-- **A text of ASCII characters comes from its own bytes only.** -/
theorem decodeLossy_eq_iff {bs : List UInt8} {s : String} (hs : ∀ c ∈ s.toList, c.toNat < 0x80) :
    decodeLossy bs = s ↔ bs = encode s := by
  rw [encode_ascii hs]
  constructor
  · rintro rfl
    rw [decodeLossy, String.toList_ofList] at hs ⊢
    have hascii : ∀ piece ∈ pieces bs, ¬ IsForeign piece := fun piece hmem hforeign =>
      Nat.not_lt.mpr hforeign (hs _ (List.mem_map_of_mem hmem))
    have hfinish : (bs.foldl Decoder.step ⟨none, []⟩).finish = [].reverse ++ pieces bs := rfl
    rw [decodeLossyChars, List.map_map]
    exact eq_of_finish_foldl hascii hfinish
  · rintro rfl
    have hpieces : pieces (s.toList.map fun c => UInt8.ofNat c.toNat) = s.toList.map some :=
      pieces_ascii hs []
    have hchars : (s.toList.map some).map (·.getD replacement) = s.toList := by simp
    rw [decodeLossy, decodeLossyChars, hpieces, hchars, String.ofList_toList]

end FleetAgent.Text.Utf8
