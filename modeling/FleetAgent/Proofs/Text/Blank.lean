/-
# Trimmed texts

What is dropped at the ends of a text is a row of the characters that may be dropped, and what
remains does not begin or end with one.
-/
import FleetAgent.Text.Blank
import Mathlib.Data.List.DropRight

namespace FleetAgent.Text

variable {p : Char → Bool} {s : List Char} {c : Char}

lemma dropWhileEnd_concat (h : p c = true) : dropWhileEnd p (s ++ [c]) = dropWhileEnd p s :=
  List.rdropWhile_concat_pos p s c h

lemma dropWhile_eq_self (h : ∀ c, s.head? = some c → p c = false) : s.dropWhile p = s := by
  cases s with
  | nil => rfl
  | cons c s => exact List.dropWhile_cons_of_neg (by simp [h c rfl])

lemma dropWhileEnd_eq_self (h : ∀ c, s.getLast? = some c → p c = false) :
    dropWhileEnd p s = s := by
  refine List.rdropWhile_eq_self_iff.mpr fun hs => ?_
  simp [h _ (List.getLast?_eq_some_getLast hs)]

/-- A text that does not begin or end with a blank is trimmed. -/
lemma trimChars_eq_self (hhead : ∀ c, s.head? = some c → isBlank c = false)
    (hlast : ∀ c, s.getLast? = some c → isBlank c = false) : trimChars s = s := by
  rw [trimChars, dropWhile_eq_self hhead, dropWhileEnd_eq_self hlast]

/-- What is dropped at the end. -/
lemma exists_dropWhileEnd (p : Char → Bool) (s : List Char) :
    ∃ behind, s = dropWhileEnd p s ++ behind ∧ ∀ c ∈ behind, p c = true := by
  refine ⟨(s.reverse.takeWhile p).reverse, ?_, fun c hc => ?_⟩
  · rw [dropWhileEnd, ← List.reverse_append, List.takeWhile_append_dropWhile, List.reverse_reverse]
  · exact List.mem_takeWhile_imp (List.mem_reverse.mp hc)

lemma getLast?_dropWhileEnd (h : (dropWhileEnd p s).getLast? = some c) : p c = false := by
  have hne : dropWhileEnd p s ≠ [] := fun hnil => by simp [hnil] at h
  rw [List.getLast?_eq_some_getLast hne] at h
  obtain rfl := Option.some.inj h
  exact Bool.eq_false_iff.mpr (List.rdropWhile_last_not p s hne)

/-- What is trimmed are blanks. -/
lemma exists_trimChars (s : List Char) :
    ∃ front behind, s = front ++ trimChars s ++ behind ∧ (∀ c ∈ front, isBlank c = true) ∧
      ∀ c ∈ behind, isBlank c = true := by
  obtain ⟨behind, hs, hbehind⟩ := exists_dropWhileEnd isBlank (s.dropWhile isBlank)
  refine ⟨s.takeWhile isBlank, behind, ?_, fun c hc => List.mem_takeWhile_imp hc, hbehind⟩
  rw [List.append_assoc, trimChars, ← hs, List.takeWhile_append_dropWhile]

lemma isBlank_of_isDigit (h : c.isDigit = true) : isBlank c = false := by
  have hrange : 48 ≤ c.toNat ∧ c.toNat ≤ 57 := by
    simpa [Char.isDigit, UInt32.le_iff_toNat_le] using h
  simp only [isBlank, Bool.or_eq_false_iff, Bool.and_eq_false_iff, decide_eq_false_iff_not,
    beq_eq_false_iff_ne]
  omega

end FleetAgent.Text
