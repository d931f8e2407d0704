/-
# Texts up to case and blanks

Two texts are the same up to case if their characters are, one after another: a letter of ASCII
has a second form, and every other character is only itself (`SameLetter`).  Lower case makes the
texts equal of which this is true, and no others (`map_toLower_eq_iff`).  For a text without blanks
it is the same to trim another text and to look for it between blanks
(`map_toLower_trimChars_eq_iff`).
-/
import FleetAgent.Proofs.Text.Blank
import Mathlib.Data.List.Forall2

namespace FleetAgent.Text

variable {s t front behind : List Char} {c d : Char}

/-! ## Case -/

/-- A character is a capital letter of ASCII, and another one is the small letter to it. -/
def IsCapitalOf (c d : Char) : Prop :=
  'A' ≤ c ∧ c ≤ 'Z' ∧ d.toNat = c.toNat + 32

/-- Two characters are the same, or the same letter of ASCII in its two forms. -/
def SameLetter (c d : Char) : Prop :=
  c = d ∨ IsCapitalOf c d ∨ IsCapitalOf d c

/-- Two texts are the same up to the case of their letters. -/
def SameUpToCase (s t : List Char) : Prop :=
  List.Forall₂ SameLetter s t

lemma isCapitalOf_iff :
    IsCapitalOf c d ↔ 65 ≤ c.toNat ∧ c.toNat ≤ 90 ∧ d.toNat = c.toNat + 32 :=
  Iff.rfl

/-- Lower case changes the capital letters of ASCII alone. -/
lemma toNat_toLower (c : Char) :
    c.toLower.toNat = if 65 ≤ c.toNat ∧ c.toNat ≤ 90 then c.toNat + 32 else c.toNat := by
  by_cases h : 65 ≤ c.toNat ∧ c.toNat ≤ 90
  · have hlower : c.toLower = ⟨c.val + ('a'.val - 'A'.val), _⟩ := dif_pos h
    rw [if_pos h, hlower]
    show (c.val + ('a'.val - 'A'.val)).toNat = c.toNat + 32
    rw [UInt32.toNat_add, show ('a'.val - 'A'.val).toNat = 32 from rfl]
    refine Nat.mod_eq_of_lt ?_
    show c.toNat + 32 < 2 ^ 32
    omega
  · have hlower : c.toLower = c := dif_neg h
    rw [if_neg h, hlower]

lemma toLower_eq_iff : c.toLower = d.toLower ↔ SameLetter c d := by
  have hval (a b : Char) : a = b ↔ a.toNat = b.toNat := Char.toNat_inj.symm
  rw [SameLetter, isCapitalOf_iff, isCapitalOf_iff, hval c d, hval, toNat_toLower, toNat_toLower]
  split_ifs <;> omega

/-- Texts are the same up to case if they are equal in lower case. -/
lemma map_toLower_eq_iff : s.map Char.toLower = t.map Char.toLower ↔ SameUpToCase s t := by
  rw [← List.forall₂_eq_eq_eq, List.forall₂_map_left_iff, List.forall₂_map_right_iff]
  simp only [toLower_eq_iff]
  rfl

/-! ## Blanks -/

lemma isBlank_of_isCapitalOf (h : IsCapitalOf c d) : isBlank c = false ∧ isBlank d = false := by
  rw [isCapitalOf_iff] at h
  simp only [isBlank, Bool.or_eq_false_iff, Bool.and_eq_false_iff, decide_eq_false_iff_not,
    beq_eq_false_iff_ne]
  omega

lemma SameLetter.isBlank_eq (h : SameLetter c d) : isBlank c = isBlank d := by
  rcases h with rfl | h | h
  · rfl
  · obtain ⟨hc, hd⟩ := isBlank_of_isCapitalOf h
    rw [hc, hd]
  · obtain ⟨hd, hc⟩ := isBlank_of_isCapitalOf h
    rw [hc, hd]

lemma SameUpToCase.not_blank (h : SameUpToCase s t) (hs : ∀ c ∈ s, isBlank c = false) :
    ∀ c ∈ t, isBlank c = false := by
  induction h with
  | nil => exact nofun
  | cons hsame hrest ih =>
    obtain ⟨hc, hs⟩ := List.forall_mem_cons.mp hs
    exact List.forall_mem_cons.mpr ⟨hsame.isBlank_eq ▸ hc, ih hs⟩

/-- Blanks around a text without blanks are trimmed. -/
lemma trimChars_append (hfront : ∀ c ∈ front, isBlank c = true)
    (hbehind : ∀ c ∈ behind, isBlank c = true) (hs : ∀ c ∈ s, isBlank c = false) :
    trimChars (front ++ s ++ behind) = s := by
  rw [trimChars, List.append_assoc, List.dropWhile_append_of_pos hfront]
  cases s with
  | nil =>
    rw [List.nil_append, List.dropWhile_eq_nil_iff.mpr hbehind, dropWhileEnd_nil]
  | cons c s =>
    have hhead : ((c :: s) ++ behind).dropWhile isBlank = (c :: s) ++ behind := by
      refine dropWhile_eq_self fun d hd => ?_
      obtain rfl := Option.some.inj hd
      exact hs c List.mem_cons_self
    have hbehind' : ∀ d ∈ behind.reverse, isBlank d = true :=
      fun d hd => hbehind d (List.mem_reverse.mp hd)
    rw [hhead, dropWhileEnd, List.reverse_append, List.dropWhile_append_of_pos hbehind']
    exact dropWhileEnd_eq_self fun d hd => hs d (List.mem_of_getLast? hd)

/-- A text without blanks is what is left of another one after trimming, up to case, if it stands
there between blanks, up to case. -/
lemma map_toLower_trimChars_eq_iff (hs : ∀ c ∈ s, isBlank c = false) :
    s.map Char.toLower = (trimChars t).map Char.toLower ↔
      ∃ front middle behind, t = front ++ middle ++ behind ∧
        (∀ c ∈ front ++ behind, isBlank c = true) ∧ SameUpToCase s middle := by
  constructor
  · intro h
    obtain ⟨front, behind, ht, hfront, hbehind⟩ := exists_trimChars t
    exact ⟨front, trimChars t, behind, ht, List.forall_mem_append.mpr ⟨hfront, hbehind⟩,
      map_toLower_eq_iff.mp h⟩
  · rintro ⟨front, middle, behind, rfl, hblank, hsame⟩
    obtain ⟨hfront, hbehind⟩ := List.forall_mem_append.mp hblank
    rw [trimChars_append hfront hbehind (hsame.not_blank hs)]
    exact map_toLower_eq_iff.mpr hsame

end FleetAgent.Text
