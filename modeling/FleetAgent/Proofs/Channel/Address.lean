/-
# Addresses of connections

A connection can be made to an address that consists of a scheme, an authority and what stands
behind it, each of them made of characters that may stand there (`isAddress_iff`).  So an address
has no blank of ASCII in front of its fragment (`le_toNat_of_isAddress`), and it stays an address
when a path is put behind it (`isAddress_append`).
-/
import FleetAgent.Channel.Connection
import FleetAgent.Proofs.Text.Pieces
import Mathlib.Data.Bool.AllAny

namespace FleetAgent.Channel

variable {url front path : String} {scheme rest s t : List Char} {c : Char}

/-- The parts of an address are what they may be. -/
structure IsLocator (scheme rest : List Char) : Prop where
  scheme_ne : scheme ≠ []
  scheme_all : ∀ c ∈ scheme, isSchemeChar c = true
  authority : isAuthority (rest.takeWhile isInAuthority) = true
  target : isTarget (rest.dropWhile isInAuthority) = true

/-- An address has a scheme in front of the first `://`, and its parts behind it. -/
lemma isAddress_iff : isAddress url = true ↔
    ∃ scheme rest, Text.cut? [':', '/', '/'] url.toList = some (scheme, rest) ∧
      IsLocator scheme rest := by
  rw [isAddress]
  constructor
  · intro h
    split at h
    · cases h
    · next scheme rest hcut =>
      simp only [Bool.and_eq_true, Bool.not_eq_true', List.isEmpty_eq_false_iff,
        List.all_eq_true] at h
      obtain ⟨⟨⟨hscheme, hletters⟩, hauthority⟩, htarget⟩ := h
      exact ⟨scheme, rest, hcut, hscheme, hletters, hauthority, htarget⟩
  · rintro ⟨scheme, rest, hcut, h⟩
    rw [hcut]
    simp only [Bool.and_eq_true, Bool.not_eq_true', List.isEmpty_eq_false_iff, List.all_eq_true]
    exact ⟨⟨⟨h.scheme_ne, h.scheme_all⟩, h.authority⟩, h.target⟩

/-! ## Blanks -/

lemma le_toNat_of_isAlphanum (h : c.isAlphanum = true) : 0x21 ≤ c.toNat := by
  have hnone : ∀ n < 0x21, (Char.ofNat n).isAlphanum = false := by decide
  by_contra hlt
  have hc := hnone c.toNat (Nat.lt_of_not_le hlt)
  rw [Char.ofNat_toNat, h] at hc
  cases hc

lemma le_toNat_of_isSchemeChar (h : isSchemeChar c = true) : 0x21 ≤ c.toNat := by
  simp only [isSchemeChar, Bool.or_eq_true, beq_iff_eq] at h
  rcases h with ((h | rfl) | rfl) | rfl
  · exact le_toNat_of_isAlphanum h
  all_goals decide

lemma le_toNat_of_isAuthorityChar (h : isAuthorityChar c = true) : 0x21 ≤ c.toNat := by
  have hmarks : ∀ c ∈ "!$&'()*+,;=-._~".toList, 0x21 ≤ c.toNat :=
    List.all_iff_forall_prop.mp (by decide)
  rw [isAuthorityChar, Bool.or_eq_true, List.contains_iff_mem] at h
  rcases h with h | h
  · exact le_toNat_of_isAlphanum h
  · exact hmarks c h

/-- Every character that is read in an authority is one of the marks that count there, or one that
may stand anywhere. -/
lemma Authority.le_toNat_of_next? {a b : Authority} (h : a.next? c = some b) :
    0x21 ≤ c.toNat := by
  have hmarks : ∀ c ∈ [':', '[', ']', '@', '%'], 0x21 ≤ c.toNat :=
    List.all_iff_forall_prop.mp (by decide)
  by_cases hc : c ∈ [':', '[', ']', '@', '%']
  · exact hmarks c hc
  · simp only [List.mem_cons, List.not_mem_nil, or_false, not_or] at hc
    obtain ⟨hcolon, hopen, hclose, hat, hpercent⟩ := hc
    rw [next?, if_neg hcolon, if_neg hopen, if_neg hclose, if_neg hat, if_neg hpercent] at h
    split_ifs at h with hchar
    exact le_toNat_of_isAuthorityChar hchar

lemma Authority.le_toNat_of_mem {a b : Authority} (h : s.foldlM next? a = some b) (hc : c ∈ s) :
    0x21 ≤ c.toNat := by
  induction s generalizing a with
  | nil => cases hc
  | cons d s ih =>
    obtain ⟨next, hnext, h⟩ := Option.bind_eq_some_iff.mp h
    rcases List.mem_cons.mp hc with rfl | hc
    · exact le_toNat_of_next? hnext
    · exact ih h hc

lemma le_toNat_of_isAuthority (h : isAuthority s = true) (hc : c ∈ s) : 0x21 ≤ c.toNat := by
  rw [isAuthority] at h
  split at h
  · next a hread => exact Authority.le_toNat_of_mem hread hc
  · cases h

lemma le_toNat_of_isTarget (h : isTarget s = true) (hfragment : '#' ∉ s) (hc : c ∈ s) :
    0x21 ≤ c.toNat := by
  have hwhole : s.takeWhile (· != '#') = s :=
    List.takeWhile_eq_self_iff.mpr fun d hd => bne_iff_ne.mpr (ne_of_mem_of_not_mem hd hfragment)
  simp only [isTarget, hwhole, Bool.and_eq_true, List.all_eq_true] at h
  rw [← List.takeWhile_append_dropWhile (p := (· != '?')) (l := s), List.mem_append] at hc
  rcases hc with hc | hc
  · have hpath := h.1 c hc
    simp only [isPathChar, Bool.and_eq_true, decide_eq_true_eq] at hpath
    omega
  · have hquery := h.2 c hc
    simp only [isQueryChar, Bool.and_eq_true, decide_eq_true_eq] at hquery
    omega

/-- An address without a fragment has no blanks and control characters of ASCII, but for the one
at its end. -/
lemma le_toNat_of_isAddress (h : isAddress url = true) (hfragment : '#' ∉ url.toList)
    (hc : c ∈ url.toList) : 0x21 ≤ c.toNat := by
  obtain ⟨scheme, rest, hcut, h⟩ := isAddress_iff.mp h
  obtain ⟨hurl, -⟩ := Text.cut?_eq_some (by simp) hcut
  have htarget : '#' ∉ rest.dropWhile isInAuthority := by
    intro hmem
    refine hfragment ?_
    rw [hurl]
    exact List.mem_append_right _ ((List.dropWhile_suffix _).subset hmem)
  rw [hurl, List.append_assoc, List.mem_append, List.mem_append] at hc
  rcases hc with hc | hc | hc
  · exact le_toNat_of_isSchemeChar (h.scheme_all c hc)
  · have hmarks : ∀ c ∈ [':', '/', '/'], 0x21 ≤ c.toNat :=
      List.all_iff_forall_prop.mp (by decide)
    exact hmarks c hc
  · rw [← List.takeWhile_append_dropWhile (p := isInAuthority) (l := rest),
      List.mem_append] at hc
    rcases hc with hc | hc
    · exact le_toNat_of_isAuthority h.authority hc
    · exact le_toNat_of_isTarget h.target htarget hc

/-! ## Paths behind an address -/

/-- Behind a path and a query may stand whatever may stand in both. -/
lemma isTarget_append (h : isTarget s = true)
    (ht : ∀ c ∈ t, isPathChar c = true ∧ isQueryChar c = true) : isTarget (s ++ t) = true := by
  simp only [isTarget, Bool.and_eq_true, List.all_eq_true] at h ⊢
  obtain ⟨hpath, hquery⟩ := h
  obtain ⟨u, htake, hu⟩ := Text.exists_takeWhile_append (· != '#') s t
  rw [htake]
  constructor
  · intro c hc
    rcases Text.mem_takeWhile_append hc with hc | hc
    · exact hpath c hc
    · exact (ht c (hu c hc)).1
  · intro c hc
    rcases Text.mem_dropWhile_append hc with hc | hc
    · exact hquery c hc
    · exact (ht c (hu c hc)).2

/-- An address with a path behind it is an address. -/
lemma isAddress_append (h : isAddress front = true) (hslash : path.toList.head? = some '/')
    (hpath : ∀ c ∈ path.toList, isPathChar c = true ∧ isQueryChar c = true) :
    isAddress (front ++ path) = true := by
  obtain ⟨scheme, rest, hcut, h⟩ := isAddress_iff.mp h
  have hends : ∀ c, path.toList.head? = some c → isInAuthority c = false := by
    intro c hc
    obtain rfl := Option.some.inj (hslash.symm.trans hc)
    rfl
  obtain ⟨htake, hdrop⟩ := Text.takeWhile_append_of_head rest hends
  refine isAddress_iff.mpr ⟨scheme, rest ++ path.toList, ?_, ?_⟩
  · rw [String.toList_append]
    exact Text.cut?_append_right hcut path.toList
  · refine ⟨h.scheme_ne, h.scheme_all, htake ▸ h.authority, ?_⟩
    rw [hdrop]
    exact isTarget_append h.target hpath

/-- What stands behind an address does not change its scheme. -/
lemma isSocketAddress_append (h : isSocketAddress front = true) (path : String) :
    isSocketAddress (front ++ path) = true := by
  rw [isSocketAddress] at h ⊢
  split at h
  · next scheme rest hcut =>
    rw [String.toList_append, Text.cut?_append_right hcut]
    exact h
  · cases h

end FleetAgent.Channel
