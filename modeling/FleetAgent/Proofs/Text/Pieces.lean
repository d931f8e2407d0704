/-
# Texts in pieces

What it means that a text is cut at a pattern, at separators or at line ends, told without the
way in which it is cut.

A cut at a pattern is at its first occurrence: the pattern does not occur in what stands before
(`cut?_eq_some`).  Where the last character of the pattern occurs nowhere else in it, no occurrence
can begin in what stands before and end later, so the converse holds too (`cut?_append`).

Between separators stand the pieces that hold none (`Separated`).

The lines of a sequence are those that it is written of (`Lines`): each of them ends with a line
feed or with a carriage return and a line feed, except that the last one may not be ended if it is
not empty.
-/
import FleetAgent.Text.Pieces
import Mathlib.Data.List.TakeWhile
import Mathlib.Tactic.Common

namespace FleetAgent.Text

/-! ## What stands in front of an end -/

section

variable {α : Type} {p : α → Bool} {s t : List α} {a : α}

/-- What ends a row ends it also behind something else. -/
lemma takeWhile_append_of_head (s : List α) (h : ∀ a, t.head? = some a → p a = false) :
    (s ++ t).takeWhile p = s.takeWhile p ∧ (s ++ t).dropWhile p = s.dropWhile p ++ t := by
  induction s with
  | nil =>
    cases t with
    | nil => simp
    | cons b t => simp [h b rfl]
  | cons b s ih =>
    cases hb : p b with
    | true => simpa [hb] using ih
    | false => simp [hb]

/-- A row is cut off where it ends. -/
lemma takeWhile_append_eq (hs : ∀ a ∈ s, p a = true) (h : ∀ a, t.head? = some a → p a = false) :
    (s ++ t).takeWhile p = s ∧ (s ++ t).dropWhile p = t := by
  obtain ⟨htake, hdrop⟩ := takeWhile_append_of_head s h
  rw [htake, hdrop, List.takeWhile_eq_self_iff.mpr hs, List.dropWhile_eq_nil_iff.mpr hs]
  exact ⟨rfl, rfl⟩

/-- What is taken of two texts is taken of the first one, or is it with something of the second. -/
lemma exists_takeWhile_append (p : α → Bool) (s t : List α) :
    ∃ u, (s ++ t).takeWhile p = s.takeWhile p ++ u ∧ ∀ a ∈ u, a ∈ t := by
  rw [List.takeWhile_append]
  split
  · next hall =>
    have hs : s.takeWhile p = s := (List.takeWhile_prefix p).eq_of_length hall
    exact ⟨t.takeWhile p, by rw [hs], fun a ha => (List.takeWhile_prefix p).subset ha⟩
  · exact ⟨[], (List.append_nil _).symm, nofun⟩

lemma mem_takeWhile_append (h : a ∈ (s ++ t).takeWhile p) : a ∈ s.takeWhile p ∨ a ∈ t := by
  obtain ⟨u, htake, hu⟩ := exists_takeWhile_append p s t
  rw [htake] at h
  exact (List.mem_append.mp h).imp_right (hu a)

lemma mem_dropWhile_append (h : a ∈ (s ++ t).dropWhile p) : a ∈ s.dropWhile p ∨ a ∈ t := by
  rw [List.dropWhile_append] at h
  split at h
  · exact .inr ((List.dropWhile_suffix p).subset h)
  · exact List.mem_append.mp h

end

/-! ## The first occurrence of a pattern -/

section

variable {pat s a b : List Char} {c : Char}

lemma cutAux_eq (pat s acc : List Char) :
    cutAux pat s acc = (cut? pat s).map fun x => (acc.reverse ++ x.1, x.2) := by
  rw [cut?]
  induction s generalizing acc with
  | nil => by_cases h : pat = [] <;> simp [cutAux, h]
  | cons c s ih =>
    rw [cutAux, cutAux]
    split
    · simp
    · rw [ih (c :: acc), ih [c], Option.map_map]
      refine congrArg (fun f => Option.map f _) (funext fun x => ?_)
      simp

lemma cut?_nil (hpat : pat ≠ []) : cut? pat [] = none := by
  rw [cut?, cutAux, if_neg hpat]

lemma cut?_of_begins (h : pat <+: c :: s) :
    cut? pat (c :: s) = some ([], (c :: s).drop pat.length) := by
  rw [cut?, cutAux, if_pos (List.isPrefixOf_iff_prefix.mpr h)]
  rfl

lemma cut?_of_not_begins (h : ¬pat <+: c :: s) :
    cut? pat (c :: s) = (cut? pat s).map fun x => (c :: x.1, x.2) := by
  rw [cut?, cutAux, if_neg (mt List.isPrefixOf_iff_prefix.mp h), cutAux_eq]
  rfl

/-- A text is cut unless the pattern does not occur in it. -/
lemma cut?_eq_none_iff (hpat : pat ≠ []) : cut? pat s = none ↔ ¬pat <:+: s := by
  induction s with
  | nil => simp [cut?_nil hpat, hpat]
  | cons c s ih =>
    rw [List.infix_cons_iff]
    by_cases h : pat <+: c :: s
    · simp [cut?_of_begins h, h]
    · simp [cut?_of_not_begins h, h, ih]

/-- A text is cut at the first occurrence of the pattern. -/
lemma cut?_eq_some (hpat : pat ≠ []) (h : cut? pat s = some (a, b)) :
    s = a ++ pat ++ b ∧ ¬pat <:+: a := by
  induction s generalizing a with
  | nil => simp [cut?_nil hpat] at h
  | cons c s ih =>
    by_cases hprefix : pat <+: c :: s
    · rw [cut?_of_begins hprefix] at h
      obtain ⟨rfl, rfl⟩ := Prod.mk.inj (Option.some.inj h)
      exact ⟨List.prefix_iff_eq_append.mp hprefix |>.symm, by simpa using hpat⟩
    · rw [cut?_of_not_begins hprefix] at h
      obtain ⟨⟨a', b'⟩, hcut, hx⟩ := Option.map_eq_some_iff.mp h
      obtain ⟨rfl, rfl⟩ := Prod.mk.inj hx
      obtain ⟨rfl, hinfix⟩ := ih hcut
      refine ⟨rfl, fun hin => ?_⟩
      rcases List.infix_cons_iff.mp hin with hin | hin
      · exact hprefix (hin.trans ⟨pat ++ b', by simp⟩)
      · exact hinfix hin

/-- What follows a text that is cut does not move the cut. -/
lemma cut?_append_right (h : cut? pat s = some (a, b)) (t : List Char) :
    cut? pat (s ++ t) = some (a, b ++ t) := by
  induction s generalizing a with
  | nil =>
    rw [cut?, cutAux] at h
    split at h
    · next hpat =>
      obtain ⟨rfl, rfl⟩ := Prod.mk.inj (Option.some.inj h)
      subst hpat
      cases t <;> simp [cut?, cutAux]
    · cases h
  | cons c s ih =>
    by_cases hprefix : pat <+: c :: s
    · rw [cut?_of_begins hprefix] at h
      obtain ⟨rfl, rfl⟩ := Prod.mk.inj (Option.some.inj h)
      have hlong : pat <+: c :: (s ++ t) := hprefix.trans ⟨t, rfl⟩
      rw [List.cons_append, cut?_of_begins hlong, ← List.cons_append,
        List.drop_append_of_le_length hprefix.length_le]
    · rw [cut?_of_not_begins hprefix] at h
      obtain ⟨⟨a', b'⟩, hcut, hx⟩ := Option.map_eq_some_iff.mp h
      obtain ⟨rfl, rfl⟩ := Prod.mk.inj hx
      -- the pattern occurs in the text, so it is not longer than the text
      have hpat : pat ≠ [] := by
        rintro rfl
        exact hprefix (List.nil_prefix)
      have hlength : pat.length ≤ s.length := by
        rw [(cut?_eq_some hpat hcut).1]
        simp only [List.length_append]
        omega
      have hbehind : ¬pat <+: c :: (s ++ t) := by
        intro hlong
        have hfront : c :: s <+: c :: (s ++ t) := ⟨t, rfl⟩
        exact hprefix (List.prefix_of_prefix_length_le hlong hfront (by
          rw [List.length_cons]
          omega))
      rw [List.cons_append, cut?_of_not_begins hbehind, ih hcut]
      rfl

/-- A pattern whose last character is not in a text does not occur behind the beginning of that
text. -/
lemma not_infix_append (pat : List Char) (hc : c ∉ b) (h : ¬pat ++ [c] <:+: a) :
    ¬pat ++ [c] <:+: a ++ b := by
  intro hin
  rcases List.infix_append_iff.mp hin with hin | hin | ⟨l, m, hlm, hl, hm⟩
  · exact h hin
  · exact hc (hin.subset (by simp))
  · rcases List.eq_nil_or_concat m with rfl | ⟨m, d, rfl⟩
    · rw [List.append_nil] at hlm
      exact h (hlm ▸ hl.isInfix)
    · rw [List.concat_eq_append, ← List.append_assoc] at hlm
      obtain rfl : c = d := List.singleton_inj.mp (List.append_inj_right' hlm rfl)
      exact hc (hm.subset (by simp))

/-- What stands in front of the first occurrence of a pattern, and behind it. -/
lemma cut?_append (hc : c ∉ pat) (h : ¬pat ++ [c] <:+: a) :
    cut? (pat ++ [c]) (a ++ (pat ++ [c]) ++ b) = some (a, b) := by
  induction a with
  | nil =>
    obtain ⟨d, s, hs⟩ := List.exists_cons_of_ne_nil (show [] ++ (pat ++ [c]) ++ b ≠ [] by simp)
    have hprefix : pat ++ [c] <+: d :: s := hs ▸ ⟨b, by simp⟩
    rw [hs, cut?_of_begins hprefix, ← hs]
    simp
  | cons d a ih =>
    -- an occurrence at the beginning would end within the text in front of the cut
    have hprefix : ¬pat ++ [c] <+: d :: (a ++ (pat ++ [c]) ++ b) := by
      intro hprefix
      have hfront : d :: a ++ pat <+: d :: (a ++ (pat ++ [c]) ++ b) := ⟨c :: b, by simp⟩
      have hin := List.prefix_of_prefix_length_le hprefix hfront (by simp)
      exact not_infix_append pat hc h hin.isInfix
    have hrest := ih fun hin => h (List.infix_cons hin)
    rw [List.cons_append, List.cons_append, cut?_of_not_begins hprefix, hrest]
    rfl

/-- A text is cut at a pattern, whose last character is nowhere else in it, exactly where it
occurs for the first time. -/
lemma cut?_eq_some_iff (pat : List Char) (hc : c ∉ pat) :
    cut? (pat ++ [c]) s = some (a, b) ↔ s = a ++ (pat ++ [c]) ++ b ∧ ¬pat ++ [c] <:+: a :=
  ⟨cut?_eq_some (by simp), fun ⟨hs, h⟩ => hs ▸ cut?_append hc h⟩

/-- What stands in front of the first occurrence of a pattern, whose first character is nowhere else
in it, and behind it. -/
lemma cut?_append_of_head (hc : c ∉ pat) (h : ¬c :: pat <:+: a) :
    cut? (c :: pat) (a ++ c :: pat ++ b) = some (a, b) := by
  induction a with
  | nil =>
    have hprefix : c :: pat <+: c :: (pat ++ b) := ⟨b, rfl⟩
    rw [List.nil_append, List.cons_append, cut?_of_begins hprefix]
    simp
  | cons d a ih =>
    have hprefix : ¬c :: pat <+: d :: (a ++ c :: pat ++ b) := by
      intro hprefix
      have hfront : d :: a <+: d :: (a ++ c :: pat ++ b) := ⟨c :: pat ++ b, by simp⟩
      rcases List.prefix_or_prefix_of_prefix hprefix hfront with hin | ⟨m, hm⟩
      · exact h hin.isInfix
      -- what goes beyond the text in front would begin as the pattern does
      · cases m with
        | nil =>
          rw [List.append_nil] at hm
          exact h (hm ▸ List.infix_refl _)
        | cons e m =>
          obtain ⟨t, ht⟩ := hprefix
          rw [← hm] at ht
          simp only [List.cons_append, List.append_assoc, List.cons.injEq, true_and,
            List.append_cancel_left_eq] at ht
          rw [List.cons_append, List.cons.injEq] at hm
          exact hc (by simp [← hm.2, ht.1, hm.1])
    have hrest := ih fun hin => h (List.infix_cons hin)
    rw [List.cons_append, List.cons_append, cut?_of_not_begins hprefix, hrest]
    rfl

/-- An occurrence that goes beyond the last character of the pattern begins behind it. -/
lemma not_infix_append_concat (pat : List Char) (hc : c ∉ pat) (ha : ¬pat ++ [c] <:+: a ++ [c])
    (hb : ¬pat ++ [c] <:+: b) : ¬pat ++ [c] <:+: a ++ [c] ++ b := by
  intro hin
  rcases List.infix_append_iff.mp hin with hin | hin | ⟨l, m, hlm, hl, hm⟩
  · exact ha hin
  · exact hb hin
  · rcases List.eq_nil_or_concat m with rfl | ⟨m, d, rfl⟩
    · rw [List.append_nil] at hlm
      exact ha (hlm ▸ hl.isInfix)
    rcases List.suffix_concat_iff.mp hl with rfl | ⟨l, rfl, -⟩
    · rw [List.nil_append] at hlm
      exact hb (hlm ▸ hm.isInfix)
    -- the part in front ends with `c`, and it is not the whole pattern
    · rw [List.concat_eq_append, ← List.append_assoc] at hlm
      have hpat : pat = l ++ [c] ++ m := List.append_inj_left' hlm rfl
      exact hc (by simp [hpat])

/-- A character that is not in the pattern keeps its occurrences apart. -/
lemma not_infix_append_cons {d : Char} (hd : d ∉ pat) (ha : ¬pat <:+: a) (hb : ¬pat <:+: b) :
    ¬pat <:+: a ++ d :: b := by
  intro hin
  rcases List.infix_append_iff.mp hin with hin | hin | ⟨l, m, rfl, hl, hm⟩
  · exact ha hin
  · rcases List.infix_cons_iff.mp hin with hin | hin
    · cases pat with
      | nil => exact ha ⟨[], a, rfl⟩
      | cons e pat => exact hd ((List.cons_prefix_cons.mp hin).1 ▸ List.mem_cons_self)
    · exact hb hin
  · cases m with
    | nil => exact ha (by simpa using hl.isInfix)
    | cons e m => exact hd (by simp [(List.cons_prefix_cons.mp hm).1])

end

/-! ## Pieces between separators -/

section

variable {α : Type} {p : α → Bool}

lemma splitAtAux_eq (p : α → Bool) (s acc : List α) (done : List (List α)) :
    splitAtAux p s acc done
      = done.reverse ++ (s.splitOnP p).modifyHead (acc.reverse ++ ·) := by
  induction s generalizing acc done with
  | nil => simp [splitAtAux]
  | cons c s ih =>
    rw [splitAtAux, List.splitOnP_cons_eq_if_modifyHead]
    split
    · rw [ih, List.reverse_nil]
      have hid : (s.splitOnP p).modifyHead ([] ++ ·) = s.splitOnP p := congrFun List.modifyHead_id _
      rw [hid]
      simp
    · rw [ih, List.modifyHead_modifyHead]
      refine congrArg (fun f => _ ++ List.modifyHead f _) (funext fun x => ?_)
      simp

/-- The pieces between separators. -/
lemma splitAt_eq (p : α → Bool) (s : List α) : splitAt p s = s.splitOnP p := by
  rw [splitAt, splitAtAux_eq]
  exact congrFun List.modifyHead_id _

/-- A sequence consists of pieces that hold no separator, with one separator between any two. -/
inductive Separated (p : α → Bool) : List α → List (List α) → Prop where
  | last (piece : List α) (hpiece : ∀ x ∈ piece, p x = false) : Separated p piece [piece]
  | cut (piece : List α) (sep : α) (rest : List α) (pieces : List (List α))
      (hpiece : ∀ x ∈ piece, p x = false) (hsep : p sep = true) (hrest : Separated p rest pieces) :
      Separated p (piece ++ sep :: rest) (piece :: pieces)

variable {s : List α} {pieces : List (List α)}

lemma Separated.cons {x : α} (h : Separated p s pieces) (hx : p x = false) :
    Separated p (x :: s) (pieces.modifyHead (x :: ·)) := by
  cases h with
  | last _ hpiece => exact .last _ (List.forall_mem_cons.mpr ⟨hx, hpiece⟩)
  | cut piece sep rest pieces hpiece hsep hrest =>
    exact .cut (x :: piece) sep rest pieces (List.forall_mem_cons.mpr ⟨hx, hpiece⟩) hsep hrest

lemma separated_splitOnP (p : α → Bool) (s : List α) : Separated p s (s.splitOnP p) := by
  induction s with
  | nil => exact .last [] (by simp)
  | cons x s ih =>
    rw [List.splitOnP_cons_eq_if_modifyHead]
    split
    · next hx => exact .cut [] x s _ (by simp) hx ih
    · next hx => exact ih.cons (by simpa using hx)

lemma Separated.splitOnP_eq (h : Separated p s pieces) : s.splitOnP p = pieces := by
  induction h with
  | last piece hpiece => exact List.splitOnP_eq_singleton hpiece
  | cut piece sep rest pieces hpiece hsep hrest ih =>
    rw [List.splitOnP_append_cons_of_forall_mem hpiece sep hsep, ih]

/-- The pieces between separators are those that the sequence consists of. -/
lemma splitAt_eq_iff : splitAt p s = pieces ↔ Separated p s pieces := by
  rw [splitAt_eq]
  exact ⟨fun h => h ▸ separated_splitOnP p s, Separated.splitOnP_eq⟩

/-- Pieces that hold no separator are those of the sequence that they are joined to. -/
lemma separated_intercalate {sep : α} (hsep : p sep = true)
    (hpieces : ∀ piece ∈ pieces, ∀ x ∈ piece, p x = false) (hne : pieces ≠ []) :
    Separated p ([sep].intercalate pieces) pieces := by
  induction pieces with
  | nil => exact absurd rfl hne
  | cons piece pieces ih =>
    obtain ⟨hpiece, hrest⟩ := List.forall_mem_cons.mp hpieces
    cases pieces with
    | nil =>
      rw [List.intercalate_singleton]
      exact .last piece hpiece
    | cons next pieces =>
      rw [List.intercalate_cons_cons, List.append_assoc, List.singleton_append]
      exact .cut piece sep _ _ hpiece hsep (ih hrest (List.cons_ne_nil _ _))

lemma Separated.length_add_one (h : Separated p s pieces) :
    s.length + 1 = pieces.flatten.length + pieces.length := by
  induction h with
  | last piece hpiece => simp
  | cut piece sep rest pieces hpiece hsep hrest ih =>
    simp only [List.flatten_cons, List.length_append, List.length_cons]
    omega

lemma Separated.of_mem (h : Separated p s pieces) {piece : List α} (hpiece : piece ∈ pieces)
    {x : α} (hx : x ∈ piece) : p x = false := by
  induction h with
  | last _ hlast =>
    obtain rfl := List.mem_singleton.mp hpiece
    exact hlast x hx
  | cut first sep rest pieces hfirst hcut hrest ih =>
    rcases List.mem_cons.mp hpiece with rfl | hpiece
    · exact hfirst x hx
    · exact ih hpiece

lemma Separated.mem_flatten (h : Separated p s pieces) {x : α} (hx : x ∈ s)
    (hsep : p x = false) : x ∈ pieces.flatten := by
  induction h with
  | last piece hpiece => simpa using hx
  | cut piece sep rest pieces hpiece hcut hrest ih =>
    rw [List.flatten_cons, List.mem_append]
    rcases List.mem_append.mp hx with hx | hx
    · exact .inl hx
    rcases List.mem_cons.mp hx with rfl | hx
    · exact absurd (hcut.symm.trans hsep) Bool.noConfusion
    · exact .inr (ih hx)

lemma Separated.infix_of_mem (h : Separated p s pieces) {piece : List α}
    (hpiece : piece ∈ pieces) : piece <:+: s := by
  induction h with
  | last _ _ =>
    obtain rfl := List.mem_singleton.mp hpiece
    exact List.infix_refl piece
  | cut first sep rest pieces hfirst hcut hrest ih =>
    rcases List.mem_cons.mp hpiece with rfl | hpiece
    · exact (List.prefix_append piece _).isInfix
    · have hbehind : rest <:+ first ++ sep :: rest := ⟨first ++ [sep], by simp⟩
      exact (ih hpiece).trans hbehind.isInfix

end

/-! ## Reading pieces -/

section

variable {α β : Type} {f : α → Option β} {xs : List α} {ys : List β}

/-- Pieces are read if each of them is. -/
lemma mapM_eq_some_iff : xs.mapM f = some ys ↔ xs.map f = ys.map some := by
  induction xs generalizing ys with
  | nil => cases ys <;> simp
  | cons x xs ih =>
    rw [List.mapM_cons]
    cases hx : f x with
    | none => cases ys <;> simp [hx]
    | some y => cases ys <;> simp [hx, Option.bind_eq_some_iff, ih, and_comm]

lemma isSome_mapM_iff : (xs.mapM f).isSome ↔ ∀ x ∈ xs, (f x).isSome := by
  induction xs with
  | nil => simp
  | cons x xs ih =>
    rw [List.mapM_cons, List.forall_mem_cons, ← ih]
    cases f x <;> simp [Option.isSome_bind]

end

/-! ## Lines -/

section

variable {α : Type} [BEq α] [LawfulBEq α] {lf cr : α} {s line rest : List α}
  {lines : List (List α)}

/-- A sequence is written of lines.  A line holds no line feed, and one that ends with a line feed
alone does not end with a carriage return. -/
inductive Lines (lf cr : α) : List α → List (List α) → Prop where
  | none : Lines lf cr [] []
  /-- The last line is not ended. -/
  | last (line : List α) (hne : line ≠ []) (hlf : lf ∉ line) : Lines lf cr line [line]
  | fed (line rest : List α) (lines : List (List α)) (hlf : lf ∉ line)
      (hcr : line.getLast? ≠ some cr) (hrest : Lines lf cr rest lines) :
      Lines lf cr (line ++ lf :: rest) (line :: lines)
  | returned (line rest : List α) (lines : List (List α)) (hlf : lf ∉ line)
      (hrest : Lines lf cr rest lines) : Lines lf cr (line ++ cr :: lf :: rest) (line :: lines)

lemma dropReturn_concat (cr : α) (line : List α) : dropReturn cr (line ++ [cr]) = line := by
  simp [dropReturn]

lemma dropReturn_of_ne (h : line.getLast? ≠ some cr) : dropReturn cr line = line := by
  rw [dropReturn]
  split
  · next c rest hline =>
    rw [if_neg]
    rintro hc
    obtain rfl := eq_of_beq hc
    exact h (by rw [← List.head?_reverse, hline]; rfl)
  · rfl

/-- The line in front of the first line feed. -/
lemma linesBy_append (hlf : lf ∉ line) :
    linesBy lf cr (line ++ lf :: rest) = dropReturn cr line :: linesBy lf cr rest := by
  have hline : ∀ x ∈ line, (x == lf) = false := fun x hx =>
    beq_eq_false_iff_ne.mpr (ne_of_mem_of_not_mem hx hlf)
  rw [linesBy, linesBy, splitAt_eq, splitAt_eq,
    List.splitOnP_append_cons_of_forall_mem hline lf (beq_self_eq_true lf)]
  cases hpieces : rest.splitOnP (· == lf) with
  | nil => exact (List.splitOnP_ne_nil _ _ hpieces).elim
  | cons piece pieces => rfl

lemma linesBy_of_not_mem (hlf : lf ∉ line) :
    linesBy lf cr line = if line = [] then [] else [line] := by
  have hline : ∀ x ∈ line, (x == lf) = false := fun x hx =>
    beq_eq_false_iff_ne.mpr (ne_of_mem_of_not_mem hx hlf)
  rw [linesBy, splitAt_eq, List.splitOnP_eq_singleton hline, linesOfPieces]
  simp

lemma Lines.linesBy_eq (h : Lines lf cr s lines) (hne : lf ≠ cr) : linesBy lf cr s = lines := by
  induction h with
  | none => rfl
  | last line hnil hlf => rw [linesBy_of_not_mem hlf, if_neg hnil]
  | fed line rest lines hlf hcr hrest ih => rw [linesBy_append hlf, dropReturn_of_ne hcr, ih]
  | returned line rest lines hlf hrest ih =>
    have hlf' : lf ∉ line ++ [cr] := by simp [hlf, hne]
    have hs : line ++ cr :: lf :: rest = (line ++ [cr]) ++ lf :: rest := by simp
    rw [hs, linesBy_append hlf', dropReturn_concat, ih]

/-- Every sequence is written of its lines. -/
lemma lines_linesBy (lf cr : α) (s : List α) : Lines lf cr s (linesBy lf cr s) := by
  by_cases hmem : lf ∈ s
  · obtain ⟨line, rest, rfl, hlf⟩ := List.eq_append_cons_of_mem hmem
    have hrest := lines_linesBy lf cr rest
    rw [linesBy_append hlf]
    by_cases hcr : line.getLast? = some cr
    · obtain ⟨line, rfl⟩ := List.getLast?_eq_some_iff.mp hcr
      rw [dropReturn_concat, List.append_assoc]
      exact .returned line rest _ (fun hin => hlf (List.mem_append_left _ hin)) hrest
    · rw [dropReturn_of_ne hcr]
      exact .fed line rest _ hlf hcr hrest
  · rw [linesBy_of_not_mem hmem]
    split
    · next hnil => exact hnil ▸ .none
    · next hnil => exact .last s hnil hmem
termination_by s.length
decreasing_by
  subst_vars
  simp only [List.length_append, List.length_cons]
  omega

omit [BEq α] [LawfulBEq α] in
lemma Lines.not_mem (h : Lines lf cr s lines) (hline : line ∈ lines) : lf ∉ line := by
  induction h with
  | none => exact absurd hline List.not_mem_nil
  | last last hne hlf =>
    obtain rfl := List.mem_singleton.mp hline
    exact hlf
  | fed first rest lines hlf hcr hrest ih =>
    rcases List.mem_cons.mp hline with rfl | hline
    · exact hlf
    · exact ih hline
  | returned first rest lines hlf hrest ih =>
    rcases List.mem_cons.mp hline with rfl | hline
    · exact hlf
    · exact ih hline

/-- **Lines.**  The lines of a sequence are those that it is written of. -/
theorem linesBy_eq_iff (hne : lf ≠ cr) : linesBy lf cr s = lines ↔ Lines lf cr s lines :=
  ⟨fun h => h ▸ lines_linesBy lf cr s, fun h => h.linesBy_eq hne⟩

end

end FleetAgent.Text
