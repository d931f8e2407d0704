/-
# The spellings of identifiers

The texts that denote an identifier are those of the four spellings (`IsSpelling`): thirty-two
digits, the digits in hyphenated groups, the latter in braces, and the latter behind `urn:uuid:`.
Their lengths tell the spellings apart, so a text is read in one of them at most.
-/
import FleetAgent.Uuid
import FleetAgent.Proofs.Text.Hex
import FleetAgent.Proofs.Text.Pieces

namespace FleetAgent.Uuid

open Text (Separated)
open Text.Hex (IsDigit IsDigits)

variable {s : List Char} {c : Char}

/-- The digits in five groups with a hyphen between any two. -/
def IsHyphenated (s : List Char) : Prop :=
  ∃ groups, Separated (· == '-') s groups ∧ groups.map List.length = [8, 4, 4, 4, 12] ∧
    ∀ group ∈ groups, IsDigits group

/-- The spellings of identifiers. -/
inductive IsSpelling : List Char → Prop where
  | plain (s : List Char) (hlength : s.length = 32) (hdigits : IsDigits s) : IsSpelling s
  | hyphenated (s : List Char) (h : IsHyphenated s) : IsSpelling s
  | braced (s : List Char) (h : IsHyphenated s) : IsSpelling ('\x7b' :: (s ++ ['\x7d']))
  | named (s : List Char) (h : IsHyphenated s) : IsSpelling (urn ++ s)

/-! ## Digits -/

lemma isSome_ofDigits?_iff : (ofDigits? s).isSome ↔ s.length = 32 ∧ IsDigits s := by
  have hsome : (Text.Hex.decodeAux s []).isSome ↔ Even s.length ∧ IsDigits s :=
    Text.Hex.isSome_decodeAux_iff
  rw [ofDigits?]
  cases hdecode : Text.Hex.decodeAux s [] with
  | none =>
    rw [hdecode] at hsome
    refine ⟨nofun, fun ⟨hlength, hdigits⟩ => ?_⟩
    exact absurd (hsome.mpr ⟨hlength ▸ by decide, hdigits⟩) Bool.noConfusion
  | some bytes =>
    rw [hdecode] at hsome
    have hdigits := (hsome.mp rfl).2
    have hlength := Text.Hex.length_of_decodeAux hdecode
    rw [List.length_nil] at hlength
    dsimp only
    split
    · next hsize => exact ⟨fun _ => ⟨by omega, hdigits⟩, fun _ => rfl⟩
    · next hsize => exact ⟨nofun, fun h => absurd h.1 (by omega)⟩

/-- Groups of digits are read together. -/
lemma isDigits_flatten {groups : List (List Char)} :
    IsDigits groups.flatten ↔ ∀ group ∈ groups, IsDigits group := by
  constructor
  · intro h group hgroup c hc
    exact h c (List.mem_flatten_of_mem hgroup hc)
  · intro h c hc
    obtain ⟨group, hgroup, hc⟩ := List.mem_flatten.mp hc
    exact h group hgroup c hc

lemma isSome_ofHyphenated?_iff : (ofHyphenated? s).isSome ↔ IsHyphenated s := by
  rw [ofHyphenated?]
  have hpieces := Text.splitAt_eq_iff.mp (rfl : Text.splitAt (· == '-') s = _)
  have hunique {groups : List (List Char)} (h : Separated (· == '-') s groups) :
      Text.splitAt (· == '-') s = groups := Text.splitAt_eq_iff.mpr h
  constructor
  · intro h
    split_ifs at h with hlengths
    · exact ⟨_, hpieces, hlengths, isDigits_flatten.mp (isSome_ofDigits?_iff.mp h).2⟩
    · exact nomatch h
  · rintro ⟨groups, hgroups, hlengths, hdigits⟩
    rw [hunique hgroups, if_pos hlengths, isSome_ofDigits?_iff, List.length_flatten, hlengths]
    exact ⟨rfl, isDigits_flatten.mpr hdigits⟩

lemma IsHyphenated.length_eq (h : IsHyphenated s) : s.length = 36 := by
  obtain ⟨groups, hgroups, hlengths, -⟩ := h
  have hlength := hgroups.length_add_one
  rw [List.length_flatten, ← List.length_map (f := List.length), hlengths] at hlength
  simpa using hlength

/-! ## Spellings -/

lemma ofChars?_of_length (hlength : s.length = 36) : ofChars? s = ofHyphenated? s := by
  rw [ofChars?, if_neg (by omega), if_pos hlength]

lemma ofChars?_braced (hlength : s.length = 36) :
    ofChars? ('\x7b' :: (s ++ ['\x7d'])) = ofHyphenated? s := by
  have hall : ('\x7b' :: (s ++ ['\x7d'])).length = 38 := by simp [hlength]
  have hinner : (('\x7b' :: (s ++ ['\x7d'])).drop 1).take 36 = s := by
    rw [List.drop_one, List.tail_cons, List.take_left' hlength]
  have hlast : ('\x7b' :: (s ++ ['\x7d'])).getLast? = some '\x7d' := by
    rw [← List.cons_append, List.getLast?_concat]
  rw [ofChars?, if_neg (by omega), if_neg (by omega), if_pos ⟨hall, rfl, hlast⟩, hinner]

lemma length_urn : urn.length = 9 := by decide

lemma ofChars?_named (hlength : s.length = 36) : ofChars? (urn ++ s) = ofHyphenated? s := by
  have hall : (urn ++ s).length = 45 := by rw [List.length_append, length_urn, hlength]
  have hprefix : urn.isPrefixOf (urn ++ s) = true := List.isPrefixOf_iff_prefix.mpr ⟨s, rfl⟩
  rw [ofChars?, if_neg (by omega), if_neg (by omega), if_neg (by omega), if_pos ⟨hall, hprefix⟩,
    List.drop_left' length_urn]

/-- A text between two braces. -/
lemma eq_braced (hhead : s.head? = some '\x7b') (hlast : s.getLast? = some '\x7d') :
    ∃ inner, s = '\x7b' :: (inner ++ ['\x7d']) := by
  obtain ⟨front, rfl⟩ := List.getLast?_eq_some_iff.mp hlast
  cases front with
  | nil => exact absurd (Option.some.inj hhead) (by decide)
  | cons c inner =>
    obtain rfl := Option.some.inj hhead
    exact ⟨inner, rfl⟩

/-- **The texts of identifiers.**  A text denotes an identifier exactly if it is one of the four
spellings. -/
theorem isSome_ofChars?_iff : (ofChars? s).isSome ↔ IsSpelling s := by
  constructor
  · intro h
    have hread := h
    rw [ofChars?] at hread
    split_ifs at hread with hplain hhyphens hbraces hnamed
    · exact .plain s hplain (isSome_ofDigits?_iff.mp hread).2
    · exact .hyphenated s (isSome_ofHyphenated?_iff.mp hread)
    · obtain ⟨hlength, hhead, hlast⟩ := hbraces
      obtain ⟨inner, rfl⟩ := eq_braced hhead hlast
      have hinner : inner.length = 36 := by simpa using hlength
      rw [ofChars?_braced hinner] at h
      exact .braced inner (isSome_ofHyphenated?_iff.mp h)
    · obtain ⟨hlength, hprefix⟩ := hnamed
      obtain ⟨rest, rfl⟩ := List.isPrefixOf_iff_prefix.mp hprefix
      have hrest : rest.length = 36 := by
        rw [List.length_append, length_urn] at hlength
        omega
      rw [ofChars?_named hrest] at h
      exact .named rest (isSome_ofHyphenated?_iff.mp h)
    · exact nomatch hread
  · rintro (⟨_, hlength, hdigits⟩ | ⟨_, h⟩ | ⟨s, h⟩ | ⟨s, h⟩)
    · rw [ofChars?, if_pos hlength]
      exact isSome_ofDigits?_iff.mpr ⟨hlength, hdigits⟩
    · rw [ofChars?_of_length h.length_eq]
      exact isSome_ofHyphenated?_iff.mpr h
    · rw [ofChars?_braced h.length_eq]
      exact isSome_ofHyphenated?_iff.mpr h
    · rw [ofChars?_named h.length_eq]
      exact isSome_ofHyphenated?_iff.mpr h

/-! ## Characters -/

lemma IsHyphenated.mem (h : IsHyphenated s) (hc : c ∈ s) : IsDigit c ∨ c = '-' := by
  obtain ⟨groups, hgroups, -, hdigits⟩ := h
  by_cases hsep : c = '-'
  · exact .inr hsep
  · exact .inl (isDigits_flatten.mpr hdigits c (hgroups.mem_flatten hc (by simpa using hsep)))

/-- The characters of a spelling: digits, hyphens, braces and those of `urn:uuid:`. -/
lemma IsSpelling.mem (h : IsSpelling s) (hc : c ∈ s) :
    IsDigit c ∨ c ∈ ['-', '\x7b', '\x7d'] ++ urn := by
  have hinner {s : List Char} (h : IsHyphenated s) (hc : c ∈ s) :
      IsDigit c ∨ c ∈ ['-', '\x7b', '\x7d'] ++ urn :=
    (h.mem hc).imp_right fun hc => by simp [hc]
  cases h with
  | plain _ _ hdigits => exact .inl (hdigits c hc)
  | hyphenated _ h => exact hinner h hc
  | braced s h =>
    simp only [List.mem_cons, List.mem_append, List.not_mem_nil, or_false] at hc
    rcases hc with rfl | hc | rfl
    · exact .inr (by decide)
    · exact hinner h hc
    · exact .inr (by decide)
  | named s h =>
    rcases List.mem_append.mp hc with hc | hc
    · exact .inr (List.mem_append_right _ hc)
    · exact hinner h hc

lemma IsSpelling.le_length (h : IsSpelling s) : 32 ≤ s.length := by
  cases h with
  | plain _ hlength => exact Nat.le_of_eq hlength.symm
  | hyphenated _ h => exact h.length_eq ▸ by decide
  | braced s h => simp [h.length_eq]
  | named s h => simp [h.length_eq]

end FleetAgent.Uuid
