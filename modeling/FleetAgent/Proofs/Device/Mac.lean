/-
# The spellings of hardware addresses

The texts that denote a hardware address are, but for blanks around them, those of six groups of two
hexadecimal digits with a colon or a hyphen between any two (`IsSpelling`).
-/
import FleetAgent.Device.Mac
import FleetAgent.Proofs.Text.Blank
import FleetAgent.Proofs.Text.Hex
import FleetAgent.Proofs.Text.Pieces

namespace FleetAgent.Device.Mac

open Text (Separated isBlank trimChars)
open Text.Hex (IsDigit IsDigits)

variable {s : List Char} {c : Char}

/-- Two digits. -/
def IsGroup (group : List Char) : Prop := group.length = 2 ∧ IsDigits group

/-- The spellings of addresses. -/
def IsSpelling (s : List Char) : Prop :=
  ∃ groups, Separated isSeparator (trimChars s) groups ∧ groups.length = 6 ∧
    ∀ group ∈ groups, IsGroup group

lemma isSome_octet?_iff {group : List Char} : (octet? group).isSome ↔ IsGroup group := by
  rw [IsGroup]
  fun_cases octet? group with
  | case1 a b x y ha hb =>
    have ha := Text.Hex.isDigit_of_value? ha
    have hb := Text.Hex.isDigit_of_value? hb
    simp [IsDigits, ha, hb]
  | case2 a b hno =>
    simp only [Option.isSome_none, Bool.false_eq_true, false_iff, IsDigits]
    exact fun h => Text.Hex.not_isDigit_pair hno (by simpa using h.2)
  | case3 group hno =>
    simp only [Option.isSome_none, Bool.false_eq_true, false_iff]
    rintro ⟨hlength, -⟩
    obtain ⟨a, b, rfl⟩ := List.length_eq_two.mp hlength
    exact hno a b rfl

/-- **The texts of hardware addresses.**  A text denotes a hardware address exactly if it is one of
the spellings. -/
theorem isSome_ofString?_iff (s : String) : (ofString? s).isSome ↔ IsSpelling s.toList := by
  have hread {groups : List (List Char)} :
      (groups.mapM octet?).isSome ↔ ∀ group ∈ groups, IsGroup group := by
    simp only [Text.isSome_mapM_iff, isSome_octet?_iff]
  have hcount {groups : List (List Char)} {octets : List UInt8}
      (h : groups.mapM octet? = some octets) : groups.length = octets.length := by
    simpa using congrArg List.length (Text.mapM_eq_some_iff.mp h)
  rw [ofString?]
  constructor
  · intro h
    split at h
    · next octets hoctets =>
      split_ifs at h with hsix
      · exact ⟨_, Text.splitAt_eq_iff.mp rfl, (hcount hoctets).trans hsix,
          hread.mp (hoctets ▸ rfl)⟩
      · exact nomatch h
    · exact nomatch h
  · rintro ⟨groups, hgroups, hsix, hdigits⟩
    obtain ⟨octets, hoctets⟩ := Option.isSome_iff_exists.mp (hread.mpr hdigits)
    have hlength : octets.length = 6 := (hcount hoctets).symm.trans hsix
    rw [Text.splitAt_eq_iff.mpr hgroups, hoctets]
    dsimp only
    rw [dif_pos hlength]
    rfl

/-! ## Characters -/

/-- Between the blanks stand digits and separators. -/
lemma IsSpelling.mem_trimChars (h : IsSpelling s) (hc : c ∈ trimChars s) :
    IsDigit c ∨ isSeparator c = true := by
  obtain ⟨groups, hgroups, -, hdigits⟩ := h
  by_cases hsep : isSeparator c = true
  · exact .inr hsep
  · obtain ⟨group, hgroup, hc⟩ :=
      List.mem_flatten.mp (hgroups.mem_flatten hc (Bool.eq_false_iff.mpr hsep))
    exact .inl ((hdigits group hgroup).2 c hc)

/-- The characters of a spelling: blanks, digits and separators. -/
lemma IsSpelling.mem (h : IsSpelling s) (hc : c ∈ s) :
    isBlank c = true ∨ IsDigit c ∨ isSeparator c = true := by
  obtain ⟨front, behind, hs, hfront, hbehind⟩ := Text.exists_trimChars s
  rw [hs, List.mem_append, List.mem_append] at hc
  rcases hc with (hc | hc) | hc
  · exact .inl (hfront c hc)
  · exact .inr (h.mem_trimChars hc)
  · exact .inl (hbehind c hc)

lemma IsSpelling.le_length (h : IsSpelling s) : 17 ≤ s.length := by
  obtain ⟨groups, hgroups, hsix, hdigits⟩ := h
  obtain ⟨front, behind, hs, -, -⟩ := Text.exists_trimChars s
  have hlengths : groups.map List.length = List.replicate 6 2 := by
    rw [← hsix, List.map_eq_replicate_iff]
    exact fun group hgroup => (hdigits group hgroup).1
  have htrimmed := hgroups.length_add_one
  have hall := congrArg List.length hs
  rw [List.length_flatten, hlengths, hsix] at htrimmed
  simp only [List.length_append] at hall
  simp at htrimmed
  omega

end FleetAgent.Device.Mac
