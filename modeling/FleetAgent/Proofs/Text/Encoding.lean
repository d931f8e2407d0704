/-
# Texts and their bytes

Decoding undoes encoding and accepts nothing else: a byte string has a text exactly if it is the
encoding of that text (`decode?_eq_some_iff`).

Characters of two, three and four bytes begin with bytes of three ranges, and only the first and
the last byte of the upper two ranges narrow down the byte that follows (`lead_two`, `lead_three`,
`lead_four`).  What a character in progress has read is the beginning of the encoding of the
character that it ends in (`Began`, `Began.step`).
-/
import FleetAgent.Proofs.Text.Pieces
import FleetAgent.Proofs.Text.Utf8

namespace FleetAgent.Text.Utf8

variable {b b₀ b₁ b₂ b₃ : UInt8} {p : Pending} {found : List (Option Char)}

/-! ## First bytes -/

lemma lead_two (h : 0xC2 ≤ b.toNat ∧ b.toNat ≤ 0xDF) :
    lead b = .multi ⟨1, 0x80, 0xBF, b.toNat - 0xC0⟩ := by
  rw [lead]
  rw [if_neg (by omega), if_pos h]

/-- The least second byte of a character of three bytes. -/
def lowOfThree (n : Nat) : UInt8 := if n = 0xE0 then 0xA0 else 0x80

/-- The greatest second byte of a character of three bytes. -/
def highOfThree (n : Nat) : UInt8 := if n = 0xED then 0x9F else 0xBF

lemma lead_three (h : 0xE0 ≤ b.toNat ∧ b.toNat ≤ 0xEF) :
    lead b = .multi ⟨2, lowOfThree b.toNat, highOfThree b.toNat, b.toNat - 0xE0⟩ := by
  rw [lead]
  rw [if_neg (by omega), if_neg (by omega)]
  by_cases hfirst : b.toNat = 0xE0
  · rw [if_pos hfirst, hfirst]
    rfl
  by_cases hgap : b.toNat = 0xED
  · rw [if_neg hfirst, if_pos hgap, hgap]
    rfl
  · rw [if_neg hfirst, if_neg hgap, if_pos (by omega), lowOfThree, if_neg hfirst, highOfThree,
      if_neg hgap]

/-- The least second byte of a character of four bytes. -/
def lowOfFour (n : Nat) : UInt8 := if n = 0xF0 then 0x90 else 0x80

/-- The greatest second byte of a character of four bytes. -/
def highOfFour (n : Nat) : UInt8 := if n = 0xF4 then 0x8F else 0xBF

lemma lead_four (h : 0xF0 ≤ b.toNat ∧ b.toNat ≤ 0xF4) :
    lead b = .multi ⟨3, lowOfFour b.toNat, highOfFour b.toNat, b.toNat - 0xF0⟩ := by
  rw [lead]
  rw [if_neg (by omega), if_neg (by omega), if_neg (by omega), if_neg (by omega),
    if_neg (by omega)]
  by_cases hfirst : b.toNat = 0xF0
  · rw [if_pos hfirst, hfirst]
    rfl
  by_cases hlast : b.toNat = 0xF4
  · rw [if_neg hfirst, if_neg (by omega), if_pos hlast, hlast]
    rfl
  · rw [if_neg hfirst, if_pos (by omega), lowOfFour, if_neg hfirst, highOfFour, if_neg hlast]

/-- What a first byte begins, by its range. -/
lemma lead_ranges (b : UInt8) :
    b.toNat < 0x80 ∧ lead b = .single (Char.ofNat b.toNat) ∨
      (0xC2 ≤ b.toNat ∧ b.toNat ≤ 0xDF) ∨ (0xE0 ≤ b.toNat ∧ b.toNat ≤ 0xEF) ∨
      (0xF0 ≤ b.toNat ∧ b.toNat ≤ 0xF4) ∨ lead b = .bad := by
  by_cases hascii : b.toNat < 0x80
  · exact .inl ⟨hascii, by rw [lead]; exact if_pos hascii⟩
  by_cases htwo : 0xC2 ≤ b.toNat ∧ b.toNat ≤ 0xDF
  · exact .inr (.inl htwo)
  by_cases hthree : 0xE0 ≤ b.toNat ∧ b.toNat ≤ 0xEF
  · exact .inr (.inr (.inl hthree))
  by_cases hfour : 0xF0 ≤ b.toNat ∧ b.toNat ≤ 0xF4
  · exact .inr (.inr (.inr (.inl hfour)))
  · refine .inr (.inr (.inr (.inr ?_)))
    rw [lead]
    split_ifs <;> first | rfl | omega

lemma between_three {n : Nat} :
    lowOfThree n ≤ b ∧ b ≤ highOfThree n ↔
      0x80 ≤ b.toNat ∧ b.toNat ≤ 0xBF ∧ (n = 0xE0 → 0xA0 ≤ b.toNat) ∧
        (n = 0xED → b.toNat ≤ 0x9F) := by
  rw [UInt8.le_iff_toNat_le, UInt8.le_iff_toNat_le, lowOfThree, highOfThree]
  split_ifs <;> simp only [UInt8.reduceToNat] <;> omega

lemma between_four {n : Nat} :
    lowOfFour n ≤ b ∧ b ≤ highOfFour n ↔
      0x80 ≤ b.toNat ∧ b.toNat ≤ 0xBF ∧ (n = 0xF0 → 0x90 ≤ b.toNat) ∧
        (n = 0xF4 → b.toNat ≤ 0x8F) := by
  rw [UInt8.le_iff_toNat_le, UInt8.le_iff_toNat_le, lowOfFour, highOfFour]
  split_ifs <;> simp only [UInt8.reduceToNat] <;> omega

/-- A byte that continues a character. -/
def IsContinuation (b : UInt8) : Prop := 0x80 ≤ b.toNat ∧ b.toNat ≤ 0xBF

lemma between_continuation : 0x80 ≤ b ∧ b ≤ 0xBF ↔ IsContinuation b := by
  rw [UInt8.le_iff_toNat_le, UInt8.le_iff_toNat_le]
  rfl

/-! ## Steps of the decoder -/

lemma step_multi (h : lead b = .multi p) : Decoder.step ⟨none, found⟩ b = ⟨some p, found⟩ := by
  simp only [Decoder.step, Decoder.begin, h]

lemma step_more {code owed : Nat} {low high : UInt8} (h : low ≤ b ∧ b ≤ high) :
    Decoder.step ⟨some ⟨owed + 2, low, high, code⟩, found⟩ b
      = ⟨some ⟨owed + 1, 0x80, 0xBF, code * 64 + (b.toNat - 0x80)⟩, found⟩ := by
  simp only [Decoder.step, h, and_self, if_true]
  rw [if_neg (by omega)]
  rfl

lemma step_last {code : Nat} {low high : UInt8} (h : low ≤ b ∧ b ≤ high) :
    Decoder.step ⟨some ⟨1, low, high, code⟩, found⟩ b
      = ⟨none, some (Char.ofNat (code * 64 + (b.toNat - 0x80))) :: found⟩ := by
  simp only [Decoder.step, h, and_self, if_true, Nat.le_refl]

/-! ## Reading an encoded character -/

/-- The decoder reads the encoding of a character as that character. -/
lemma foldl_utf8EncodeChar (c : Char) (found : List (Option Char)) :
    (String.utf8EncodeChar c).foldl Decoder.step ⟨none, found⟩ = ⟨none, some c :: found⟩ := by
  have hvalid : c.toNat < 0xD800 ∨ 0xDFFF < c.toNat ∧ c.toNat < 0x110000 := c.valid
  have hc : Char.ofNat c.toNat = c := Char.ofNat_toNat c
  have hbyte {n : Nat} (hn : n < 256) : (UInt8.ofNat n).toNat = n := UInt8.toNat_ofNat_of_lt hn
  rw [String.utf8EncodeChar, show c.val.toNat = c.toNat from rfl]
  generalize c.toNat = v at hvalid hc
  split_ifs with hone htwo hthree
  · have hv := hbyte (n := v) (by omega)
    have hlead : lead (UInt8.ofNat v) = .single c := by
      rw [lead, hv, if_pos (by omega), hc]
    simp only [List.foldl_cons, List.foldl_nil, Decoder.step, Decoder.begin, hlead]
  · have h₀ := hbyte (n := v / 64 % 32 + 192) (by omega)
    have h₁ := hbyte (n := v % 64 + 128) (by omega)
    have hcode : (v / 64 % 32 + 192 - 0xC0) * 64 + (v % 64 + 128 - 0x80) = v := by omega
    rw [List.foldl_cons, step_multi (lead_two (by omega)), List.foldl_cons,
      step_last (between_continuation.mpr ⟨by omega, by omega⟩), h₀, h₁, hcode, hc]
    rfl
  · have h₀ := hbyte (n := v / 4096 % 16 + 224) (by omega)
    have h₁ := hbyte (n := v / 64 % 64 + 128) (by omega)
    have h₂ := hbyte (n := v % 64 + 128) (by omega)
    have hcode : ((v / 4096 % 16 + 224 - 0xE0) * 64 + (v / 64 % 64 + 128 - 0x80)) * 64
        + (v % 64 + 128 - 0x80) = v := by omega
    rw [List.foldl_cons, step_multi (lead_three (by omega)), List.foldl_cons,
      step_more (between_three.mpr (by omega)), List.foldl_cons,
      step_last (between_continuation.mpr ⟨by omega, by omega⟩), h₀, h₁, h₂, hcode, hc]
    rfl
  · have h₀ := hbyte (n := v / 262144 % 8 + 240) (by omega)
    have h₁ := hbyte (n := v / 4096 % 64 + 128) (by omega)
    have h₂ := hbyte (n := v / 64 % 64 + 128) (by omega)
    have h₃ := hbyte (n := v % 64 + 128) (by omega)
    have hcode : (((v / 262144 % 8 + 240 - 0xF0) * 64 + (v / 4096 % 64 + 128 - 0x80)) * 64
        + (v / 64 % 64 + 128 - 0x80)) * 64 + (v % 64 + 128 - 0x80) = v := by omega
    rw [List.foldl_cons, step_multi (lead_four (by omega)), List.foldl_cons,
      step_more (between_four.mpr (by omega)), List.foldl_cons,
      step_more (between_continuation.mpr ⟨by omega, by omega⟩), List.foldl_cons,
      step_last (between_continuation.mpr ⟨by omega, by omega⟩), h₀, h₁, h₂, h₃, hcode, hc]
    rfl

/-! ## Encoding a character that has been read -/

lemma encode_two (h₀ : 0xC2 ≤ b₀.toNat ∧ b₀.toNat ≤ 0xDF) (h₁ : IsContinuation b₁) :
    String.utf8EncodeChar (Char.ofNat ((b₀.toNat - 0xC0) * 64 + (b₁.toNat - 0x80)))
      = [b₀, b₁] := by
  obtain ⟨h₁, h₁'⟩ := h₁
  generalize hv : (b₀.toNat - 0xC0) * 64 + (b₁.toNat - 0x80) = v
  have hchar : (Char.ofNat v).val.toNat = v := toNat_ofNat (.inl (by omega))
  have hfirst : v / 64 % 32 + 192 = b₀.toNat := by omega
  have hsecond : v % 64 + 128 = b₁.toNat := by omega
  rw [String.utf8EncodeChar, hchar, if_neg (by omega), if_pos (by omega), hfirst, hsecond,
    UInt8.ofNat_toNat, UInt8.ofNat_toNat]

lemma encode_three (h₀ : 0xE0 ≤ b₀.toNat ∧ b₀.toNat ≤ 0xEF)
    (h₁ : lowOfThree b₀.toNat ≤ b₁ ∧ b₁ ≤ highOfThree b₀.toNat) (h₂ : IsContinuation b₂) :
    String.utf8EncodeChar (Char.ofNat
      (((b₀.toNat - 0xE0) * 64 + (b₁.toNat - 0x80)) * 64 + (b₂.toNat - 0x80))) = [b₀, b₁, b₂] := by
  obtain ⟨h₂, h₂'⟩ := h₂
  rw [between_three] at h₁
  generalize hv : ((b₀.toNat - 0xE0) * 64 + (b₁.toNat - 0x80)) * 64 + (b₂.toNat - 0x80) = v
  have hchar : (Char.ofNat v).val.toNat = v := toNat_ofNat (by rw [Nat.isValidChar]; omega)
  have hfirst : v / 4096 % 16 + 224 = b₀.toNat := by omega
  have hsecond : v / 64 % 64 + 128 = b₁.toNat := by omega
  have hthird : v % 64 + 128 = b₂.toNat := by omega
  rw [String.utf8EncodeChar, hchar, if_neg (by omega), if_neg (by omega), if_pos (by omega),
    hfirst, hsecond, hthird, UInt8.ofNat_toNat, UInt8.ofNat_toNat, UInt8.ofNat_toNat]

lemma encode_four (h₀ : 0xF0 ≤ b₀.toNat ∧ b₀.toNat ≤ 0xF4)
    (h₁ : lowOfFour b₀.toNat ≤ b₁ ∧ b₁ ≤ highOfFour b₀.toNat) (h₂ : IsContinuation b₂)
    (h₃ : IsContinuation b₃) :
    String.utf8EncodeChar (Char.ofNat
      ((((b₀.toNat - 0xF0) * 64 + (b₁.toNat - 0x80)) * 64 + (b₂.toNat - 0x80)) * 64
        + (b₃.toNat - 0x80))) = [b₀, b₁, b₂, b₃] := by
  obtain ⟨h₂, h₂'⟩ := h₂
  obtain ⟨h₃, h₃'⟩ := h₃
  rw [between_four] at h₁
  generalize hv : (((b₀.toNat - 0xF0) * 64 + (b₁.toNat - 0x80)) * 64 + (b₂.toNat - 0x80)) * 64
    + (b₃.toNat - 0x80) = v
  have hchar : (Char.ofNat v).val.toNat = v := toNat_ofNat (by rw [Nat.isValidChar]; omega)
  have hfirst : v / 262144 % 8 + 240 = b₀.toNat := by omega
  have hsecond : v / 4096 % 64 + 128 = b₁.toNat := by omega
  have hthird : v / 64 % 64 + 128 = b₂.toNat := by omega
  have hfourth : v % 64 + 128 = b₃.toNat := by omega
  rw [String.utf8EncodeChar, hchar, if_neg (by omega), if_neg (by omega), if_neg (by omega),
    hfirst, hsecond, hthird, hfourth, UInt8.ofNat_toNat, UInt8.ofNat_toNat, UInt8.ofNat_toNat,
    UInt8.ofNat_toNat]

/-- The bytes that the character in progress has read; none between characters. -/
inductive Began : List UInt8 → Option Pending → Prop where
  | idle : Began [] none
  | oneOfTwo (b₀ : UInt8) (h₀ : 0xC2 ≤ b₀.toNat ∧ b₀.toNat ≤ 0xDF) :
      Began [b₀] (some ⟨1, 0x80, 0xBF, b₀.toNat - 0xC0⟩)
  | oneOfThree (b₀ : UInt8) (h₀ : 0xE0 ≤ b₀.toNat ∧ b₀.toNat ≤ 0xEF) :
      Began [b₀] (some ⟨2, lowOfThree b₀.toNat, highOfThree b₀.toNat, b₀.toNat - 0xE0⟩)
  | twoOfThree (b₀ b₁ : UInt8) (h₀ : 0xE0 ≤ b₀.toNat ∧ b₀.toNat ≤ 0xEF)
      (h₁ : lowOfThree b₀.toNat ≤ b₁ ∧ b₁ ≤ highOfThree b₀.toNat) :
      Began [b₀, b₁] (some ⟨1, 0x80, 0xBF, (b₀.toNat - 0xE0) * 64 + (b₁.toNat - 0x80)⟩)
  | oneOfFour (b₀ : UInt8) (h₀ : 0xF0 ≤ b₀.toNat ∧ b₀.toNat ≤ 0xF4) :
      Began [b₀] (some ⟨3, lowOfFour b₀.toNat, highOfFour b₀.toNat, b₀.toNat - 0xF0⟩)
  | twoOfFour (b₀ b₁ : UInt8) (h₀ : 0xF0 ≤ b₀.toNat ∧ b₀.toNat ≤ 0xF4)
      (h₁ : lowOfFour b₀.toNat ≤ b₁ ∧ b₁ ≤ highOfFour b₀.toNat) :
      Began [b₀, b₁] (some ⟨2, 0x80, 0xBF, (b₀.toNat - 0xF0) * 64 + (b₁.toNat - 0x80)⟩)
  | threeOfFour (b₀ b₁ b₂ : UInt8) (h₀ : 0xF0 ≤ b₀.toNat ∧ b₀.toNat ≤ 0xF4)
      (h₁ : lowOfFour b₀.toNat ≤ b₁ ∧ b₁ ≤ highOfFour b₀.toNat) (h₂ : IsContinuation b₂) :
      Began [b₀, b₁, b₂] (some
        ⟨1, 0x80, 0xBF, ((b₀.toNat - 0xF0) * 64 + (b₁.toNat - 0x80)) * 64 + (b₂.toNat - 0x80)⟩)

/-- One more byte of a character in progress: the character is still in progress, or has been read
as the one that the bytes encode. -/
lemma Began.step {read : List UInt8} (h : Began read (some p)) (hb : p.low ≤ b ∧ b ≤ p.high)
    (found : List (Option Char)) :
    (∃ p', Began (read ++ [b]) (some p') ∧
        Decoder.step ⟨some p, found⟩ b = ⟨some p', found⟩) ∨
      ∃ c, String.utf8EncodeChar c = read ++ [b] ∧
        Decoder.step ⟨some p, found⟩ b = ⟨none, some c :: found⟩ := by
  cases h with
  | oneOfTwo b₀ h₀ => exact .inr ⟨_, encode_two h₀ (between_continuation.mp hb), step_last hb⟩
  | oneOfThree b₀ h₀ => exact .inl ⟨_, .twoOfThree b₀ b h₀ hb, step_more hb⟩
  | twoOfThree b₀ b₁ h₀ h₁ =>
    exact .inr ⟨_, encode_three h₀ h₁ (between_continuation.mp hb), step_last hb⟩
  | oneOfFour b₀ h₀ => exact .inl ⟨_, .twoOfFour b₀ b h₀ hb, step_more hb⟩
  | twoOfFour b₀ b₁ h₀ h₁ =>
    exact .inl ⟨_, .threeOfFour b₀ b₁ b h₀ h₁ (between_continuation.mp hb), step_more hb⟩
  | threeOfFour b₀ b₁ b₂ h₀ h₁ h₂ =>
    exact .inr ⟨_, encode_four h₀ h₁ h₂ (between_continuation.mp hb), step_last hb⟩

/-- A first byte is a character, begins one, or is ill-formed. -/
lemma step_first (b : UInt8) (found : List (Option Char)) :
    (∃ p, Began [b] (some p) ∧ Decoder.step ⟨none, found⟩ b = ⟨some p, found⟩) ∨
      (∃ c, String.utf8EncodeChar c = [b] ∧
        Decoder.step ⟨none, found⟩ b = ⟨none, some c :: found⟩) ∨
      Decoder.step ⟨none, found⟩ b = ⟨none, none :: found⟩ := by
  obtain ⟨hascii, hlead⟩ | htwo | hthree | hfour | hbad := lead_ranges b
  · refine .inr (.inl ⟨Char.ofNat b.toNat, ?_, by simp only [Decoder.step, Decoder.begin, hlead]⟩)
    have hchar : (Char.ofNat b.toNat).val.toNat = b.toNat := toNat_ofNat (.inl (by omega))
    rw [String.utf8EncodeChar, hchar, if_pos (by omega), UInt8.ofNat_toNat]
  · exact .inl ⟨_, .oneOfTwo b htwo, step_multi (lead_two htwo)⟩
  · exact .inl ⟨_, .oneOfThree b hthree, step_multi (lead_three hthree)⟩
  · exact .inl ⟨_, .oneOfFour b hfour, step_multi (lead_four hfour)⟩
  · exact .inr (.inr (by simp only [Decoder.step, Decoder.begin, hbad]))

/-- One byte: the character is in progress, or has been read, or an ill-formed part has been
found. -/
lemma step_cases {read : List UInt8} {pending : Option Pending} (h : Began read pending)
    (b : UInt8) (found : List (Option Char)) :
    (∃ p, Began (read ++ [b]) (some p) ∧
        Decoder.step ⟨pending, found⟩ b = ⟨some p, found⟩) ∨
      (∃ c, String.utf8EncodeChar c = read ++ [b] ∧
        Decoder.step ⟨pending, found⟩ b = ⟨none, some c :: found⟩) ∨
      ∃ more, (Decoder.step ⟨pending, found⟩ b).found = more ++ none :: found := by
  cases pending with
  | none =>
    cases h
    obtain hmore | hchar | hbad := step_first b found
    · exact .inl hmore
    · exact .inr (.inl hchar)
    · exact .inr (.inr ⟨[], by rw [hbad]; rfl⟩)
  | some p =>
    by_cases hb : p.low ≤ b ∧ b ≤ p.high
    · exact (h.step hb found).imp_right .inl
    · refine .inr (.inr ?_)
      rw [Decoder.step]
      dsimp only
      rw [if_neg hb]
      exact exists_found_begin (none :: found) b

/-! ## Texts -/

/-- An ill-formed part that has been found stays. -/
lemma finish_ne_of_none {bs : List UInt8} {cs : List Char} {more : List (Option Char)}
    {d : Decoder} (hd : d.found = more ++ none :: found) :
    (bs.foldl Decoder.step d).finish ≠ found.reverse ++ cs.map some := by
  intro h
  obtain ⟨later, hlater⟩ := exists_finish_foldl bs d
  rw [h, hd, List.reverse_append, List.reverse_cons, List.append_assoc, List.append_assoc] at hlater
  have hmem : none ∈ cs.map some := by
    rw [List.append_cancel_left hlater]
    exact List.mem_cons_self
  obtain ⟨c, -, hc⟩ := List.mem_map.mp hmem
  exact nomatch hc

/-- Pieces that are all characters come from the encodings of these. -/
lemma eq_encode_of_finish_foldl {bs read : List UInt8} {cs : List Char} {d : Decoder}
    (hread : Began read d.pending)
    (h : (bs.foldl Decoder.step d).finish = d.found.reverse ++ cs.map some) :
    read ++ bs = cs.flatMap String.utf8EncodeChar := by
  induction bs generalizing read cs d with
  | nil =>
    obtain ⟨_ | p, found⟩ := d
    · cases hread
      have hnil : cs = [] := by simpa [Decoder.finish] using h
      rw [hnil]
      rfl
    · -- the character in progress is an ill-formed part
      have hnone : (Decoder.mk none (none :: found)).found = [] ++ none :: found := rfl
      have hfinish : ([].foldl Decoder.step ⟨none, none :: found⟩).finish
          = found.reverse ++ cs.map some := h
      exact absurd hfinish (finish_ne_of_none hnone)
  | cons b bs ih =>
    obtain ⟨pending, found⟩ := d
    rw [List.foldl_cons] at h
    obtain ⟨p, hbegan, hstep⟩ | ⟨c, hc, hstep⟩ | ⟨more, hmore⟩ := step_cases hread b found
    · rw [hstep] at h
      rw [← ih hbegan h, List.append_assoc, List.singleton_append]
    · obtain ⟨later, hlater⟩ := exists_finish_foldl bs ⟨none, some c :: found⟩
      rw [hstep] at h
      rw [h, List.reverse_cons, List.append_assoc] at hlater
      obtain ⟨c', cs, rfl, hc', -⟩ := List.map_eq_cons_iff.mp (List.append_cancel_left hlater)
      obtain rfl := Option.some.inj hc'
      have hbs : [] ++ bs = cs.flatMap String.utf8EncodeChar :=
        ih .idle (by rw [h]; simp)
      rw [List.flatMap_cons, ← hbs, hc]
      simp
    · exact absurd h (finish_ne_of_none hmore)

/-- The encodings of characters are read as these. -/
lemma finish_foldl_encode (cs : List Char) (found : List (Option Char)) :
    ((cs.flatMap String.utf8EncodeChar).foldl Decoder.step ⟨none, found⟩).finish
      = found.reverse ++ cs.map some := by
  induction cs generalizing found with
  | nil => exact (List.append_nil _).symm
  | cons c cs ih =>
    rw [List.flatMap_cons, List.foldl_append, foldl_utf8EncodeChar, ih, List.reverse_cons,
      List.append_assoc]
    rfl

lemma pieces_encode (s : String) : pieces (encode s) = s.toList.map some :=
  finish_foldl_encode s.toList []

/-- Nothing is replaced in the encoding of a text. -/
lemma decodeLossyChars_encode (s : String) : decodeLossyChars (encode s) = s.toList := by
  rw [decodeLossyChars, pieces_encode, List.map_map]
  exact List.map_id _

/-- **The text of a byte string.**  A byte string has a text exactly if it is the encoding of that
text. -/
theorem decode?_eq_some_iff {bs : List UInt8} {s : String} :
    decode? bs = some s ↔ bs = encode s := by
  have hpieces : pieces bs = s.toList.map some ↔ bs = encode s := by
    constructor
    · exact fun h => eq_encode_of_finish_foldl (d := ⟨none, []⟩) .idle h
    · rintro rfl
      exact pieces_encode s
  rw [← hpieces, ← List.map_id (pieces bs), ← mapM_eq_some_iff, decode?, Option.map_eq_some_iff]
  constructor
  · rintro ⟨cs, hcs, rfl⟩
    rw [hcs, String.toList_ofList]
  · exact fun h => ⟨_, h, String.ofList_toList⟩

end FleetAgent.Text.Utf8
