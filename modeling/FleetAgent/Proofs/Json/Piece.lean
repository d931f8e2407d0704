/-
# Spelled pieces

A document of which only some fields are read is cut into pieces, and what is skipped is not looked
into.  A piece is spelled as the token in its place is, with two exceptions: a number may be of any
size, and between two quotation marks any escapes may stand, and bytes that are not UTF-8
(`IsSkippable`).  A document is a row of pieces with spaces around them (`Piece.Row`).

The machine that cuts a document takes nothing else: at every moment what it has read is a row of
the pieces found so far and the beginning of one more (`Skimmer.Reading`).  And it takes every row
in which no two words or numbers stand side by side (`Piece.Apart`).
-/
import FleetAgent.Json.Record
import FleetAgent.Proofs.Json.Spelling

namespace FleetAgent.Json

/-! ## Rows of pieces -/

/-- What may stand between two quotation marks: characters, bytes that are not UTF-8, and escapes,
with or without a meaning. -/
inductive IsSkippable : List (Option Char) → Prop where
  | nil : IsSkippable []
  | plain {w : List (Option Char)} (h : IsSkippable w) (x : Option Char)
      (hx : ∀ c, x = some c → c ≠ '"' ∧ c ≠ '\\' ∧ 0x20 ≤ c.toNat) : IsSkippable (w ++ [x])
  | short {w : List (Option Char)} (h : IsSkippable w) (letter c : Char)
      (hletter : (letter, c) ∈ shortEscapes) : IsSkippable (w ++ [some '\\', some letter])
  | unit {w : List (Option Char)} (h : IsSkippable w) (ds : List Char) (hlength : ds.length = 4)
      (hdigits : ∀ c ∈ ds, Text.Hex.isDigit c = true) :
      IsSkippable (w ++ some '\\' :: some 'u' :: ds.map some)

namespace Piece

/-- The characters that are pieces of their own. -/
def marks : List Char := ['[', ']', '\x7b', '\x7d', ',', ':']

/-- A piece as it may be spelled.  Words and numbers are spelled as tokens are. -/
inductive IsSpelled : Piece → List (Option Char) → Prop where
  | mark (c : Char) (h : c ∈ marks) : IsSpelled (.mark c) [some c]
  | text (w : List (Option Char)) (h : IsSkippable w) :
      IsSpelled (.text w) (some '"' :: w ++ [some '"'])
  | plain (t : Token) (s : List Char) (hopen : t.isOpen = true) (h : t.IsSpelled s) :
      IsSpelled (.plain s) (s.map some)

/-- A text is a row of pieces, with spaces anywhere around them. -/
inductive Row : List (Option Char) → List Piece → Prop where
  | nil : Row [] []
  | space {cs : List (Option Char)} {ps : List Piece} (h : Row cs ps) {c : Char}
      (hc : IsSpace c) : Row (cs ++ [some c]) ps
  | piece {cs : List (Option Char)} {ps : List Piece} (h : Row cs ps) {p : Piece}
      {ds : List (Option Char)} (hp : p.IsSpelled ds) : Row (cs ++ ds) (ps ++ [p])

/-- Whether a piece may go on with the next character. -/
def isPlain : Piece → Bool
  | plain _ => true
  | _ => false

/-- No two words or numbers stand side by side. -/
def Apart (ps : List Piece) : Prop :=
  ps.IsChain fun p q => p.isPlain = true → q.isPlain = false

end Piece

namespace Skimmer

/-- The pieces found so far if the word or the number in progress, if any, ends here; the latest
comes first. -/
def flush? (s : State) : Option (List Piece) :=
  match s.mode with
  | .between => some s.found
  | .plain acc => (plain? acc.reverse).map (· :: s.found)
  | _ => none

lemma finish?_eq (s : State) : finish? s = (flush? s).map List.reverse := by
  rw [finish?, flush?]
  split <;> simp [*, Function.comp_def]

/-! ## What is read is a row -/

/-- What has been read of the piece in progress. -/
inductive InPiece : List (Option Char) → Mode → Prop where
  | between : InPiece [] .between
  | plain (acc : List Char) : InPiece (acc.reverse.map some) (.plain acc)
  | text (acc : List (Option Char)) (h : IsSkippable acc.reverse) :
      InPiece (some '"' :: acc.reverse) (.text acc)
  | escape (acc : List (Option Char)) (h : IsSkippable acc.reverse) :
      InPiece (some '"' :: acc.reverse ++ [some '\\']) (.escape (some '\\' :: acc))
  | unicode (acc : List (Option Char)) (ds : List Char) (left : Nat)
      (h : IsSkippable acc.reverse) (hleft : 0 < left) (hlength : ds.length + left = 4)
      (hdigits : ∀ c ∈ ds, Text.Hex.isDigit c = true) :
      InPiece (some '"' :: acc.reverse ++ some '\\' :: some 'u' :: ds.map some)
        (.unicode (ds.reverse.map some ++ some 'u' :: some '\\' :: acc) left)

/-- What has been read is a row of pieces, and the beginning of one more. -/
inductive Reading : List (Option Char) → State → Prop where
  | intro (cs ds : List (Option Char)) (s : State) (hrow : Piece.Row cs s.found.reverse)
      (hpart : InPiece ds s.mode) : Reading (cs ++ ds) s

section

variable {cs : List (Option Char)} {found ps : List Piece} {s s' : State} {c : Char}
  {x : Option Char} {p : Piece}

lemma plain?_eq_some_iff {written : List Char} : plain? written = some p ↔
    p = .plain written ∧ ∃ t, Token.isOpen t = true ∧ t.IsSpelled written := by
  rw [plain?]
  constructor
  · intro h
    split_ifs at h with hplain
    obtain rfl := Option.some.inj h
    refine ⟨rfl, ?_⟩
    rcases Bool.or_eq_true_iff.mp hplain with hword | hnumber
    · obtain ⟨t, ht⟩ := Option.isSome_iff_exists.mp hword
      refine ⟨t, ?_, (Lexer.isSpelled_of_wordToken? ht).1⟩
      rw [Lexer.wordToken?] at ht
      split_ifs at ht <;> cases ht <;> rfl
    · obtain ⟨n, hn⟩ := Option.isSome_iff_exists.mp hnumber
      obtain ⟨rfl, hwritten⟩ := Number.ofChars?_eq_some_iff.mp hn
      exact ⟨.number n, rfl, .number n hwritten⟩
  · rintro ⟨rfl, t, hopen, ht⟩
    refine if_pos (Bool.or_eq_true_iff.mpr ?_)
    cases ht with
    | openArray | closeArray | openObject | closeObject | comma | colon | string => cases hopen
    | number n hn =>
      rw [Number.ofChars?_eq_some_iff.mpr ⟨rfl, hn⟩]
      exact .inr rfl
    | true | false | null => exact .inl rfl

lemma isSpelled_of_plain? {written : List Char} (h : plain? written = some p) :
    p.IsSpelled (written.map some) := by
  obtain ⟨rfl, t, hopen, ht⟩ := plain?_eq_some_iff.mp h
  exact .plain t written hopen ht

lemma mem_marks_iff : c ∈ Piece.marks ↔ (Lexer.punctuation? c).isSome = true := by
  rw [Lexer.punctuation?]
  split_ifs <;> simp_all [Piece.marks]

/-- Between pieces, the beginning of one more is read. -/
lemma Reading.start (hrow : Piece.Row cs found.reverse) (h : start? found c = some s) :
    Reading (cs ++ [some c]) s := by
  rw [start?] at h
  split_ifs at h with hspace hquote hplain
  · obtain rfl := Option.some.inj h
    rw [← List.append_nil (cs ++ [some c])]
    exact .intro _ _ _ (hrow.space (Lexer.isSpace_iff.mp hspace)) .between
  · obtain rfl := Option.some.inj h
    subst hquote
    exact .intro _ _ _ hrow (.text [] .nil)
  · obtain rfl := Option.some.inj h
    exact .intro _ _ _ hrow (.plain [c])
  · obtain ⟨t, ht, rfl⟩ := Option.map_eq_some_iff.mp h
    have hmark : c ∈ Piece.marks := mem_marks_iff.mpr (by rw [ht, Option.isSome_some])
    have hnext : Piece.Row (cs ++ [some c]) (.mark c :: found).reverse := by
      rw [List.reverse_cons]
      exact hrow.piece (.mark c hmark)
    rw [← List.append_nil (cs ++ [some c])]
    exact .intro _ _ _ hnext .between

/-- In a text, a character continues it, ends it or begins an escape. -/
lemma Reading.text_step {acc : List (Option Char)} (hrow : Piece.Row cs found.reverse)
    (h : IsSkippable acc.reverse) (hstep : step? ⟨.text acc, found⟩ x = some s) :
    Reading (cs ++ (some '"' :: acc.reverse ++ [x])) s := by
  have hplain (hx : ∀ c, x = some c → c ≠ '"' ∧ c ≠ '\\' ∧ 0x20 ≤ c.toNat) :
      Reading (cs ++ (some '"' :: acc.reverse ++ [x])) ⟨.text (x :: acc), found⟩ := by
    have hnext : IsSkippable (x :: acc).reverse := by
      rw [List.reverse_cons]
      exact h.plain x hx
    rw [List.cons_append, ← List.reverse_cons]
    exact .intro _ _ _ hrow (.text (x :: acc) hnext)
  cases x with
  | none =>
    obtain rfl := Option.some.inj hstep
    exact hplain nofun
  | some c =>
    dsimp only [step?] at hstep
    split_ifs at hstep with hslash hquote hcontrol
    · obtain rfl := Option.some.inj hstep
      subst hslash
      exact .intro _ _ _ hrow (.escape acc h)
    · obtain rfl := Option.some.inj hstep
      subst hquote
      have hnext : Piece.Row (cs ++ (some '"' :: acc.reverse ++ [some '"']))
          (.text acc.reverse :: found).reverse := by
        rw [List.reverse_cons]
        exact hrow.piece (.text acc.reverse h)
      rw [← List.append_nil (cs ++ _)]
      exact .intro _ _ _ hnext .between
    · obtain rfl := Option.some.inj hstep
      refine hplain ?_
      rintro d ⟨⟩
      exact ⟨hquote, hslash, Nat.le_of_not_lt hcontrol⟩

/-- Behind a backslash, a letter makes an escape, or the digits of one follow. -/
lemma Reading.escape_step {acc : List (Option Char)} (hrow : Piece.Row cs found.reverse)
    (h : IsSkippable acc.reverse)
    (hstep : step? ⟨.escape (some '\\' :: acc), found⟩ (some c) = some s) :
    Reading (cs ++ (some '"' :: acc.reverse ++ [some '\\', some c])) s := by
  dsimp only [step?] at hstep
  split_ifs at hstep with hu
  · obtain rfl := Option.some.inj hstep
    subst hu
    exact .intro _ _ _ hrow (.unicode acc [] 4 h (by decide) rfl nofun)
  · obtain ⟨d, hd, rfl⟩ := Option.map_eq_some_iff.mp hstep
    have hnext : IsSkippable (some c :: some '\\' :: acc).reverse := by
      have hshort := h.short c d (Lexer.mem_shortEscapes hd)
      simpa using hshort
    have hpart := InPiece.text _ hnext
    rw [List.reverse_cons, List.reverse_cons, List.append_assoc] at hpart
    exact .intro _ _ _ hrow hpart

/-- The digits of an escape are read one by one. -/
lemma Reading.unicode_step {acc : List (Option Char)} {digits : List Char} {left : Nat}
    (hrow : Piece.Row cs found.reverse) (h : IsSkippable acc.reverse) (hpos : 0 < left)
    (hlength : digits.length + left = 4) (hdigits : ∀ c ∈ digits, Text.Hex.isDigit c = true)
    (hstep : step? ⟨.unicode (digits.reverse.map some ++ some 'u' :: some '\\' :: acc) left, found⟩
      (some c) = some s) :
    Reading (cs ++ (some '"' :: acc.reverse ++ some '\\' :: some 'u' :: (digits ++ [c]).map some))
      s := by
  have hlonger : (digits ++ [c]).length = digits.length + 1 := by
    rw [List.length_append, List.length_singleton]
  dsimp only [step?] at hstep
  split_ifs at hstep with hnot hleft
  all_goals
    have hdigit : Text.Hex.isDigit c = true := by simpa using hnot
    have hall : ∀ d ∈ digits ++ [c], Text.Hex.isDigit d = true :=
      List.forall_mem_append.mpr ⟨hdigits, List.forall_mem_singleton.mpr hdigit⟩
  · obtain rfl := Option.some.inj hstep
    have hacc : (some c :: (digits.reverse.map some ++ some 'u' :: some '\\' :: acc)).reverse =
        acc.reverse ++ some '\\' :: some 'u' :: (digits ++ [c]).map some := by
      simp
    have hfour : (digits ++ [c]).length = 4 := by omega
    have hnext := h.unit (digits ++ [c]) hfour hall
    rw [← hacc] at hnext
    rw [List.cons_append, ← hacc]
    exact .intro _ _ _ hrow (.text _ hnext)
  · obtain rfl := Option.some.inj hstep
    have hpart := InPiece.unicode acc (digits ++ [c]) (left - 1) h (by omega) (by omega) hall
    rw [List.reverse_concat, List.map_cons, List.cons_append] at hpart
    exact .intro _ _ _ hrow hpart

/-- Each character that is read continues what has been read. -/
lemma Reading.step (h : Reading cs s) (hstep : step? s x = some s') : Reading (cs ++ [x]) s' := by
  obtain ⟨cs, ds, s, hrow, hpart⟩ := h
  obtain ⟨mode, found⟩ := s
  dsimp only at hrow hpart
  cases hpart with
  | between =>
    cases x with
    | none => cases hstep
    | some c =>
      rw [List.append_nil]
      exact .start hrow hstep
  | plain acc =>
    cases x with
    | none => cases hstep
    | some c =>
      dsimp only [step?] at hstep
      split_ifs at hstep with hplain
      · obtain rfl := Option.some.inj hstep
        have hpart := InPiece.plain (c :: acc)
        rw [List.reverse_cons, List.map_append] at hpart
        rw [List.append_assoc]
        exact .intro _ _ _ hrow hpart
      · obtain ⟨p, hp, hstart⟩ := Option.bind_eq_some_iff.mp hstep
        refine .start ?_ hstart
        rw [List.reverse_cons]
        exact hrow.piece (isSpelled_of_plain? hp)
  | text acc h =>
    rw [List.append_assoc]
    exact .text_step hrow h hstep
  | escape acc h =>
    cases x with
    | none => cases hstep
    | some c =>
      rw [List.append_assoc, List.append_assoc]
      exact .escape_step hrow h hstep
  | unicode acc digits left h hpos hlength hdigits =>
    cases x with
    | none => cases hstep
    | some c =>
      have hread := Reading.unicode_step hrow h hpos hlength hdigits hstep
      simpa only [List.map_append, List.map_singleton, List.append_assoc, List.cons_append]
        using hread

/-- At the end of a document there is no piece in progress, or it is complete. -/
lemma Reading.flush (h : Reading cs s) (hps : flush? s = some ps) : Piece.Row cs ps.reverse := by
  obtain ⟨cs, ds, s, hrow, hpart⟩ := h
  obtain ⟨mode, found⟩ := s
  cases hpart with
  | between =>
    obtain rfl := Option.some.inj hps
    rw [List.append_nil]
    exact hrow
  | plain acc =>
    obtain ⟨p, hp, rfl⟩ := Option.map_eq_some_iff.mp hps
    rw [List.reverse_cons]
    exact hrow.piece (isSpelled_of_plain? hp)
  | text | escape | unicode => cases hps

end

end Skimmer

/-- **What is read is a row.**  The pieces of a document are a row that spells it. -/
theorem Piece.row_of_ofBytes? {document : List UInt8} {ps : List Piece}
    (h : Piece.ofBytes? document = some ps) : Piece.Row (Text.Utf8.pieces document) ps := by
  rw [Piece.ofBytes?] at h
  split at h
  · next s hs =>
    rw [Skimmer.finish?_eq] at h
    obtain ⟨found, hfound, rfl⟩ := Option.map_eq_some_iff.mp h
    have hreading : Skimmer.Reading [] ⟨.between, []⟩ := .intro [] [] _ .nil .between
    exact (foldlM_invariant Skimmer.Reading.step hreading hs).flush hfound
  · cases h

/-! ## Rows are read -/

namespace Skimmer

variable {cs w : List (Option Char)} {found ps : List Piece} {c : Char} {s : List Char}

/-- A mark is a piece of its own wherever it stands, and ends what stands before it. -/
lemma eq_of_mem_marks (h : c ∈ Piece.marks) :
    isPlainChar c = false ∧ ∀ found, start? found c = some ⟨.between, .mark c :: found⟩ := by
  simp only [Piece.marks, List.mem_cons, List.not_mem_nil, or_false] at h
  rcases h with rfl | rfl | rfl | rfl | rfl | rfl <;> exact ⟨by decide, fun _ => rfl⟩

/-- A character that cannot go on a word or a number ends it. -/
lemma step?_of_flush? {st : State} (h : flush? st = some found) (hc : isPlainChar c = false) :
    step? st (some c) = start? found c := by
  obtain ⟨mode, before⟩ := st
  cases mode with
  | between =>
    cases h
    rfl
  | plain acc =>
    obtain ⟨p, hp, rfl⟩ := Option.map_eq_some_iff.mp h
    simp only [step?, hc, hp, Bool.false_eq_true, if_false, Option.bind_some]
  | text | escape | unicode => cases h

/-- The digits of an escape are read one by one. -/
lemma foldlM_unit {ds : List Char} (hlength : ds.length = 4)
    (hdigits : ∀ c ∈ ds, Text.Hex.isDigit c = true) (acc : List (Option Char)) :
    (some '\\' :: some 'u' :: ds.map some).foldlM step? ⟨.text acc, found⟩ =
      some ⟨.text ((some '\\' :: some 'u' :: ds.map some).reverse ++ acc), found⟩ := by
  obtain ⟨a, b, c, d, rfl⟩ := List.length_eq_four.mp hlength
  simp only [List.forall_mem_cons] at hdigits
  obtain ⟨ha, hb, hc, hd, -⟩ := hdigits
  simp [step?, ha, hb, hc, hd]

lemma foldlM_skippable (h : IsSkippable w) (acc : List (Option Char)) :
    w.foldlM step? ⟨.text acc, found⟩ = some ⟨.text (w.reverse ++ acc), found⟩ := by
  induction h with
  | nil => rfl
  | @plain w _ x hx ih =>
    have hstep : step? ⟨.text (w.reverse ++ acc), found⟩ x =
        some ⟨.text (x :: (w.reverse ++ acc)), found⟩ := by
      cases x with
      | none => rfl
      | some c =>
        obtain ⟨hquote, hslash, hcontrol⟩ := hx c rfl
        simp [step?, hquote, hslash, Nat.not_lt.mpr hcontrol]
    rw [List.foldlM_append, ih, Option.bind_eq_bind, Option.bind_some, List.foldlM_cons, hstep,
      List.reverse_concat]
    rfl
  | @short w _ letter c hletter ih =>
    have hletters : ∀ e ∈ shortEscapes,
        [some '\\', some e.1].foldlM step? ⟨.text (w.reverse ++ acc), found⟩ =
          some ⟨.text (some e.1 :: some '\\' :: (w.reverse ++ acc)), found⟩ := by
      intro e he
      simp only [shortEscapes, List.mem_cons, List.not_mem_nil, or_false] at he
      rcases he with rfl | rfl | rfl | rfl | rfl | rfl | rfl | rfl <;> rfl
    rw [List.foldlM_append, ih, Option.bind_eq_bind, Option.bind_some, hletters _ hletter]
    simp
  | @unit w _ ds hlength hdigits ih =>
    rw [List.foldlM_append, ih, Option.bind_eq_bind, Option.bind_some,
      foldlM_unit hlength hdigits, List.reverse_append, List.append_assoc]

/-- The pieces have been read, and only a word or a number may be in progress. -/
def IsAt (ps : List Piece) (st : State) : Prop :=
  flush? st = some ps.reverse ∧ (st = ⟨.between, ps.reverse⟩ ∨
    ∃ p, ps.getLast? = some p ∧ p.isPlain = true)

lemma isAt_between (ps : List Piece) : IsAt ps ⟨.between, ps.reverse⟩ := ⟨rfl, .inl rfl⟩

/-- A space ends what stands before it. -/
lemma IsAt.space {st : State} (h : IsAt ps st) (hc : IsSpace c) :
    step? st (some c) = some ⟨.between, ps.reverse⟩ := by
  have hplain : isPlainChar c = false := by
    rcases hc with rfl | rfl | rfl | rfl <;> decide
  rw [step?_of_flush? h.1 hplain, start?, if_pos (Lexer.isSpace_iff.mpr hc)]

lemma IsAt.mark {st : State} (h : IsAt ps st) (hc : c ∈ Piece.marks) :
    step? st (some c) = some ⟨.between, (ps ++ [Piece.mark c]).reverse⟩ := by
  obtain ⟨hplain, hstart⟩ := eq_of_mem_marks hc
  rw [step?_of_flush? h.1 hplain, hstart, List.reverse_concat]

lemma IsAt.text {st : State} (h : IsAt ps st) (hw : IsSkippable w) :
    (some '"' :: w ++ [some '"']).foldlM step? st =
      some ⟨.between, (ps ++ [Piece.text w]).reverse⟩ := by
  have hopen : step? st (some '"') = some ⟨.text [], ps.reverse⟩ :=
    step?_of_flush? h.1 (by decide)
  have hclose : step? ⟨.text w.reverse, ps.reverse⟩ (some '"') =
      some ⟨.between, .text w :: ps.reverse⟩ := by
    simp [step?]
  rw [List.cons_append, List.foldlM_cons, hopen, Option.bind_eq_bind, Option.bind_some,
    List.foldlM_append, foldlM_skippable hw, List.append_nil, Option.bind_eq_bind,
    Option.bind_some, List.foldlM_cons, hclose, List.reverse_concat]
  rfl

/-- Words and numbers consist of what they may go on with. -/
lemma isPlainChar_of_isSpelled {t : Token} (hopen : t.isOpen = true) (h : t.IsSpelled s) :
    s ≠ [] ∧ ∀ c ∈ s, isPlainChar c = true := by
  cases h with
  | openArray | closeArray | openObject | closeObject | comma | colon | string => cases hopen
  | number n hn =>
    obtain ⟨⟨c, rest, hs, -⟩, hall⟩ :=
      Lexer.isNumeric_of_ofChars? (Number.ofChars?_eq_some_iff.mpr ⟨rfl, hn⟩)
    refine ⟨by simp [hs], fun c hc => ?_⟩
    rw [isPlainChar, hall c hc]
    rfl
  | true | false | null => exact ⟨List.cons_ne_nil _ _, List.all_eq_true.mp rfl⟩

lemma start?_of_isPlainChar (h : isPlainChar c = true) :
    start? found c = some ⟨.plain [c], found⟩ := by
  have hspace : ¬Lexer.isSpace c = true := by
    intro hspace
    rcases Lexer.isSpace_iff.mp hspace with rfl | rfl | rfl | rfl <;> exact absurd h (by decide)
  have hquote : c ≠ '"' := by
    rintro rfl
    exact absurd h (by decide)
  rw [start?, if_neg hspace, if_neg hquote, if_pos h]

lemma foldlM_isPlainChar (h : ∀ c ∈ s, isPlainChar c = true) (acc : List Char) :
    (s.map some).foldlM step? ⟨.plain acc, found⟩ = some ⟨.plain (s.reverse ++ acc), found⟩ := by
  induction s generalizing acc with
  | nil => rfl
  | cons c s ih =>
    obtain ⟨hc, hs⟩ := List.forall_mem_cons.mp h
    have hstep : step? ⟨.plain acc, found⟩ (some c) = some ⟨.plain (c :: acc), found⟩ := if_pos hc
    rw [List.map_cons, List.foldlM_cons, hstep, List.reverse_cons, List.append_assoc]
    exact ih hs (c :: acc)

/-- A word or a number is read where no other stands before it. -/
lemma foldlM_plain {t : Token} (hopen : t.isOpen = true) (h : t.IsSpelled s) :
    (s.map some).foldlM step? ⟨.between, found⟩ = some ⟨.plain s.reverse, found⟩ := by
  obtain ⟨hne, hall⟩ := isPlainChar_of_isSpelled hopen h
  obtain ⟨c, rest, rfl⟩ := List.exists_cons_of_ne_nil hne
  obtain ⟨hc, hrest⟩ := List.forall_mem_cons.mp hall
  have hstart : step? ⟨.between, found⟩ (some c) = some ⟨.plain [c], found⟩ :=
    start?_of_isPlainChar hc
  rw [List.map_cons, List.foldlM_cons, hstart, List.reverse_cons]
  exact foldlM_isPlainChar hrest [c]

/-- Every row is read, if its words and numbers can be told apart. -/
lemma isAt_of_row (h : Piece.Row cs ps) (hapart : Piece.Apart ps) :
    ∃ st, cs.foldlM step? ⟨.between, []⟩ = some st ∧ IsAt ps st := by
  induction h with
  | nil => exact ⟨_, rfl, isAt_between []⟩
  | @space cs ps _ c hc ih =>
    obtain ⟨st, hst, hat⟩ := ih hapart
    refine ⟨_, ?_, isAt_between ps⟩
    rw [List.foldlM_append, hst, Option.bind_eq_bind, Option.bind_some, List.foldlM_cons,
      hat.space hc]
    rfl
  | @piece cs ps _ p ds hp ih =>
    obtain ⟨st, hst, hat⟩ := ih hapart.left_of_append
    have hnext {st' : State} (hds : ds.foldlM step? st = some st') :
        (cs ++ ds).foldlM step? ⟨.between, []⟩ = some st' := by
      rw [List.foldlM_append, hst]
      exact hds
    cases hp with
    | mark c hc =>
      refine ⟨_, hnext ?_, isAt_between _⟩
      rw [List.foldlM_cons, hat.mark hc]
      rfl
    | text w hw => exact ⟨_, hnext (hat.text hw), isAt_between _⟩
    | plain t s hopen ht =>
      obtain ⟨-, rfl | ⟨q, hq, hqplain⟩⟩ := hat
      · refine ⟨_, hnext (foldlM_plain hopen ht), ?_, .inr ⟨.plain s, by simp, rfl⟩⟩
        have hplain : plain? s = some (.plain s) := plain?_eq_some_iff.mpr ⟨rfl, t, hopen, ht⟩
        simp [flush?, hplain]
      · have hlast := (List.isChain_append.mp hapart).2.2 q hq (.plain s) rfl hqplain
        cases hlast

end Skimmer

/-- **Rows are read.**  A document that is a row of pieces is cut into these pieces, if its words
and numbers can be told apart. -/
theorem Piece.ofBytes?_of_row {document : List UInt8} {ps : List Piece}
    (h : Piece.Row (Text.Utf8.pieces document) ps) (hapart : Piece.Apart ps) :
    Piece.ofBytes? document = some ps := by
  obtain ⟨st, hst, hflush, -⟩ := Skimmer.isAt_of_row h hapart
  rw [Piece.ofBytes?, hst]
  simp [Skimmer.finish?_eq, hflush]

end FleetAgent.Json
