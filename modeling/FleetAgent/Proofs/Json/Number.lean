/-
# Written numbers

A number is written as an optional minus sign, a whole part that has no zero in front of another
digit, and optionally a fraction and an exponent, each with at least one digit (`IsWritten`).  The
reader takes exactly what is written in this way, and keeps its parts (`ofChars?_eq_some_iff`).
-/
import FleetAgent.Json.Value
import FleetAgent.Proofs.Numeral.Integer
import FleetAgent.Proofs.Text.Pieces

namespace FleetAgent.Json

/-- At least one digit. -/
structure IsDigits (ds : List Char) : Prop where
  ne_nil : ds ≠ []
  digit : ∀ c ∈ ds, c.isDigit = true

/-- An exponent as it may be written. -/
structure Exponent.IsWritten (e : Exponent) : Prop where
  mark : e.mark = 'e' ∨ e.mark = 'E'
  sign : e.sign = none ∨ e.sign = some '+' ∨ e.sign = some '-'
  digits : IsDigits e.digits

/-- A number as it may be written. -/
structure Number.IsWritten (n : Number) : Prop where
  whole : IsDigits n.whole
  zero : n.whole.head? = some '0' → n.whole = ['0']
  fraction : ∀ ds, n.fraction = some ds → IsDigits ds
  exponent : ∀ e, n.exponent = some e → e.IsWritten

section

variable {ds cs : List Char} {c : Char}

lemma isDigit_eq (c : Char) : Numeral.isDigit c = c.isDigit := by
  rw [Numeral.isDigit, Numeral.digit?_eq]
  split
  · next h => exact h.symm
  · next h => exact (eq_false_of_ne_true h).symm

lemma isDigits_iff : IsDigits ds ↔ (!ds.isEmpty && ds.all Numeral.isDigit) = true := by
  rw [Bool.and_eq_true, Bool.not_eq_true', List.isEmpty_eq_false_iff, List.all_eq_true]
  simp only [isDigit_eq]
  exact ⟨fun h => ⟨h.ne_nil, h.digit⟩, fun h => ⟨h.1, h.2⟩⟩

lemma isDigits_takeWhile (h : ds.takeWhile Numeral.isDigit ≠ []) :
    IsDigits (ds.takeWhile Numeral.isDigit) where
  ne_nil := h
  digit c hc := isDigit_eq c ▸ List.mem_takeWhile_imp hc

/-- Digits are told from what stands behind them. -/
lemma IsDigits.takeWhile_append (h : IsDigits ds)
    (hcs : ∀ c, cs.head? = some c → c.isDigit = false) :
    (ds ++ cs).takeWhile Numeral.isDigit = ds ∧ (ds ++ cs).dropWhile Numeral.isDigit = cs := by
  refine Text.takeWhile_append_eq ?_ ?_
  · intro c hc
    rw [isDigit_eq]
    exact h.digit c hc
  · intro c hc
    rw [isDigit_eq]
    exact hcs c hc

end

/-- The written form of an exponent. -/
def Exponent.chars (e : Exponent) : List Char :=
  e.mark :: e.sign.toList ++ e.digits

namespace Number

variable {ds cs : List Char} {n : Number} {negative : Bool} {e : Option Exponent}

/-- The written form of an exponent, if there is one. -/
def exponentChars (e : Option Exponent) : List Char :=
  (e.map Exponent.chars).getD []

/-- The written form of a fraction, if there is one. -/
def fractionChars (f : Option (List Char)) : List Char :=
  (f.map ('.' :: ·)).getD []

lemma chars_eq (n : Number) :
    n.chars = (if n.negative then ['-'] else []) ++
      (n.whole ++ (fractionChars n.fraction ++ exponentChars n.exponent)) := by
  obtain ⟨negative, whole, fraction, exponent⟩ := n
  cases fraction <;> cases exponent <;>
    simp [chars, fractionChars, exponentChars, Exponent.chars, List.append_assoc]

/-! ## Exponents -/

/-- The sign in front of the digits of an exponent, and the digits. -/
def cutSign : List Char → Option Char × List Char
  | '+' :: ds => (some '+', ds)
  | '-' :: ds => (some '-', ds)
  | ds => (none, ds)

lemma exponent?_cons (mark : Char) (rest : List Char) :
    exponent? (mark :: rest) =
      if mark = 'e' ∨ mark = 'E' then
        if !(cutSign rest).2.isEmpty && (cutSign rest).2.all Numeral.isDigit then
          some (some ⟨mark, (cutSign rest).1, (cutSign rest).2⟩)
        else none
      else none :=
  rfl

lemma cutSign_spec (rest : List Char) :
    ((cutSign rest).1 = none ∨ (cutSign rest).1 = some '+' ∨ (cutSign rest).1 = some '-') ∧
      rest = (cutSign rest).1.toList ++ (cutSign rest).2 := by
  unfold cutSign
  split <;> simp

lemma cutSign_append {sign : Option Char} (hsign : sign = none ∨ sign = some '+' ∨ sign = some '-')
    (hds : IsDigits ds) : cutSign (sign.toList ++ ds) = (sign, ds) := by
  rcases hsign with rfl | rfl | rfl
  · -- without a sign the first character is a digit
    obtain ⟨d, ds, rfl⟩ := List.exists_cons_of_ne_nil hds.ne_nil
    have hd : d.isDigit = true := hds.digit d List.mem_cons_self
    rw [Option.toList_none, List.nil_append]
    unfold cutSign
    split
    · next heq =>
      cases heq
      cases hd
    · next heq =>
      cases heq
      cases hd
    · rfl
  · rfl
  · rfl

lemma exponent?_eq_some_iff : exponent? cs = some e ↔
    cs = exponentChars e ∧ ∀ x, e = some x → x.IsWritten := by
  constructor
  · intro h
    cases cs with
    | nil =>
      cases h
      exact ⟨rfl, nofun⟩
    | cons mark rest =>
      rw [exponent?_cons] at h
      split_ifs at h with hmark hdigits
      obtain rfl := Option.some.inj h
      obtain ⟨hsign, hrest⟩ := cutSign_spec rest
      refine ⟨congrArg (mark :: ·) hrest, ?_⟩
      rintro x hx
      obtain rfl := Option.some.inj hx
      exact ⟨hmark, hsign, isDigits_iff.mpr hdigits⟩
  · rintro ⟨rfl, hwritten⟩
    cases e with
    | none => rfl
    | some x =>
      have hx := hwritten x rfl
      have hchars : exponentChars (some x) = x.mark :: (x.sign.toList ++ x.digits) := rfl
      rw [hchars, exponent?_cons, if_pos hx.mark, cutSign_append hx.sign hx.digits,
        if_pos (isDigits_iff.mp hx.digits)]

/-- An exponent does not begin with a digit or a point. -/
lemma head?_exponentChars (he : ∀ x, e = some x → x.IsWritten) {c : Char}
    (hc : (exponentChars e).head? = some c) : c.isDigit = false ∧ c ≠ '.' := by
  cases e with
  | none => cases hc
  | some x =>
    obtain rfl : x.mark = c := Option.some.inj hc
    rcases (he x rfl).mark with hmark | hmark
    · rw [hmark]
      decide
    · rw [hmark]
      decide

/-! ## Numbers -/

lemma isWhole_iff : isWhole ds = true ↔ IsDigits ds ∧ (ds.head? = some '0' → ds = ['0']) := by
  cases ds with
  | nil =>
    refine iff_of_false nofun ?_
    rintro ⟨h, -⟩
    exact h.ne_nil rfl
  | cons c ds =>
    have hzero : (c != '0' || ds.isEmpty) = true ↔
        ((c :: ds).head? = some '0' → c :: ds = ['0']) := by
      rw [Bool.or_eq_true, bne_iff_ne, List.isEmpty_iff, List.head?_cons, Option.some.injEq,
        or_iff_not_imp_left, not_not]
      refine imp_congr_right fun hc => ?_
      simp [hc]
    rw [isWhole, Bool.and_eq_true, hzero, isDigits_iff]
    rfl

/-- What is read as a number is its written form. -/
lemma isWritten_of_ofUnsigned? (h : ofUnsigned? negative cs = some n) :
    n.negative = negative ∧
      cs = n.whole ++ (fractionChars n.fraction ++ exponentChars n.exponent) ∧ n.IsWritten := by
  rw [ofUnsigned?] at h
  split_ifs at h with hwhole
  obtain ⟨hdigits, hzero⟩ := isWhole_iff.mp (by simpa using hwhole)
  rw [← List.takeWhile_append_dropWhile (p := Numeral.isDigit) (l := cs)]
  generalize cs.takeWhile Numeral.isDigit = whole at h hdigits hzero ⊢
  split at h
  · next rest hrest =>
    rw [hrest]
    dsimp only at h
    split_ifs at h with hfraction
    obtain ⟨e, he, rfl⟩ := Option.map_eq_some_iff.mp h
    obtain ⟨hchars, hwritten⟩ := exponent?_eq_some_iff.mp he
    refine ⟨rfl, ?_, hdigits, hzero, ?_, hwritten⟩
    · rw [← hchars]
      simp [fractionChars, List.takeWhile_append_dropWhile]
    · intro ds hds
      obtain rfl := Option.some.inj hds
      exact isDigits_takeWhile (by simpa using hfraction)
  · obtain ⟨e, he, rfl⟩ := Option.map_eq_some_iff.mp h
    obtain ⟨hchars, hwritten⟩ := exponent?_eq_some_iff.mp he
    exact ⟨rfl, by rw [hchars]; rfl, hdigits, hzero, nofun, hwritten⟩

/-- Behind the whole part there is no digit. -/
lemma head?_fractionChars {f : Option (List Char)} (he : ∀ x, e = some x → x.IsWritten) {c : Char}
    (hc : (fractionChars f ++ exponentChars e).head? = some c) : c.isDigit = false := by
  cases f with
  | none => exact (head?_exponentChars he hc).1
  | some ds =>
    obtain rfl : '.' = c := Option.some.inj hc
    decide

/-- The written form of a number is read as the number. -/
lemma ofUnsigned?_of_isWritten (h : n.IsWritten) :
    ofUnsigned? n.negative (n.whole ++ (fractionChars n.fraction ++ exponentChars n.exponent)) =
      some n := by
  obtain ⟨negative, whole, fraction, e⟩ := n
  have hexponent : exponent? (exponentChars e) = some e :=
    exponent?_eq_some_iff.mpr ⟨rfl, h.exponent⟩
  have hwhole : isWhole whole = true := isWhole_iff.mpr ⟨h.whole, h.zero⟩
  obtain ⟨htake, hdrop⟩ := h.whole.takeWhile_append fun _ hc =>
    head?_fractionChars (f := fraction) h.exponent hc
  rw [ofUnsigned?, htake, hdrop]
  simp only [hwhole, Bool.not_true, Bool.false_eq_true, if_false]
  cases fraction with
  | none =>
    have hnone : fractionChars none ++ exponentChars e = exponentChars e := rfl
    rw [hnone]
    split
    · next rest hrest =>
      -- an exponent does not begin with a point
      have hpoint := head?_exponentChars h.exponent (c := '.') (by rw [hrest]; rfl)
      exact absurd rfl hpoint.2
    · rw [hexponent, Option.map_some]
  | some ds =>
    have hds : IsDigits ds := h.fraction ds rfl
    obtain ⟨htake, hdrop⟩ := hds.takeWhile_append fun c hc =>
      (head?_exponentChars h.exponent hc).1
    have hsome : fractionChars (some ds) ++ exponentChars e = '.' :: (ds ++ exponentChars e) :=
      rfl
    rw [hsome]
    simp only [htake, hdrop, hexponent, Option.map_some]
    rw [if_neg (by simpa using hds.ne_nil)]

/-- **Numbers.**  A text is read as a number exactly if it is its written form. -/
theorem ofChars?_eq_some_iff : ofChars? cs = some n ↔ cs = n.chars ∧ n.IsWritten := by
  rw [chars_eq]
  constructor
  · intro h
    rw [ofChars?.eq_def] at h
    split at h
    · obtain ⟨hnegative, rfl, hwritten⟩ := isWritten_of_ofUnsigned? h
      rw [hnegative]
      exact ⟨rfl, hwritten⟩
    · obtain ⟨hnegative, rfl, hwritten⟩ := isWritten_of_ofUnsigned? h
      rw [hnegative]
      exact ⟨rfl, hwritten⟩
  · rintro ⟨rfl, hwritten⟩
    have hread := ofUnsigned?_of_isWritten hwritten
    cases hnegative : n.negative with
    | true =>
      rw [hnegative] at hread
      exact hread
    | false =>
      rw [hnegative] at hread
      rw [if_neg (by decide), List.nil_append]
      -- without its sign, a number begins with a digit
      obtain ⟨d, ds, hds⟩ := List.exists_cons_of_ne_nil hwritten.whole.ne_nil
      have hd : d.isDigit = true := hwritten.whole.digit d (by rw [hds]; exact List.mem_cons_self)
      rw [ofChars?.eq_def]
      split
      · next rest hrest =>
        rw [hds, List.cons_append] at hrest
        obtain rfl := (List.cons.inj hrest).1
        cases hd
      · exact hread

end Number

end FleetAgent.Json
