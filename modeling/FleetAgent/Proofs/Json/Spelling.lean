/-
# Spelled tokens

A document is a row of tokens with spaces before, between and behind them (`Row`).  A mark and a
word are spelled in one way, a number in any of its written forms, and a string between quotation
marks in pieces, one for each of its characters (`IsPiece`): the character itself, or an escape.  A
character outside the first plane may be given by the escapes of its two surrogates, one right
behind the other.

The machine that cuts a document takes nothing else: at every moment what it has read is a row of
the tokens found so far and the beginning of one more (`Reading`).  And it takes every row in which
no two words or numbers stand side by side (`Apart`), which could not be told from one.
-/
import FleetAgent.Proofs.Json.Number
import FleetAgent.Proofs.Json.Token
import Mathlib.Data.List.Chain

namespace FleetAgent.Json

/-! ## Rows of tokens -/

/-- A space between tokens. -/
def IsSpace (c : Char) : Prop := c = ' ' ∨ c = '\t' ∨ c = '\n' ∨ c = '\r'

/-- The letters of short escapes and the characters that they mean. -/
def shortEscapes : List (Char × Char) :=
  [('"', '"'), ('\\', '\\'), ('/', '/'), ('b', '\x08'), ('f', '\x0c'), ('n', '\n'), ('r', '\r'),
    ('t', '\t')]

/-- The number that a row of hexadecimal digits denotes. -/
def hexValue? (ds : List Char) : Option Nat :=
  ds.foldlM (fun n c => (Text.Hex.value? c).map (16 * n + ·)) 0

/-- Four hexadecimal digits denote a code unit. -/
structure IsUnit (ds : List Char) (n : Nat) : Prop where
  length : ds.length = 4
  value : hexValue? ds = some n

/-- A character of a string, as it may be spelled. -/
inductive IsPiece : List Char → Char → Prop where
  | plain (c : Char) (hquote : c ≠ '"') (hslash : c ≠ '\\') (hcontrol : 0x20 ≤ c.toNat) :
      IsPiece [c] c
  | short (letter c : Char) (h : (letter, c) ∈ shortEscapes) : IsPiece ['\\', letter] c
  | unit (ds : List Char) (n : Nat) (h : IsUnit ds n) (hn : n < 0xD800 ∨ 0xDFFF < n) :
      IsPiece ('\\' :: 'u' :: ds) (Char.ofNat n)
  /-- The escapes of a high and a low surrogate. -/
  | pair (ds es : List Char) (high low : Nat) (hd : IsUnit ds (0xD800 + high))
      (he : IsUnit es (0xDC00 + low)) (hhigh : high < 0x400) (hlow : low < 0x400) :
      IsPiece ('\\' :: 'u' :: ds ++ '\\' :: 'u' :: es) (Char.ofNat (0x10000 + 0x400 * high + low))

/-- A string as it may be spelled, piece by piece. -/
inductive IsText : List Char → List Char → Prop where
  | nil : IsText [] []
  | snoc {cs s : List Char} (h : IsText cs s) {piece : List Char} {c : Char}
      (hpiece : IsPiece piece c) : IsText (cs ++ piece) (s ++ [c])

/-- A token as it may be spelled. -/
inductive Token.IsSpelled : Token → List Char → Prop where
  | openArray : IsSpelled .openArray ['[']
  | closeArray : IsSpelled .closeArray [']']
  | openObject : IsSpelled .openObject ['\x7b']
  | closeObject : IsSpelled .closeObject ['\x7d']
  | comma : IsSpelled .comma [',']
  | colon : IsSpelled .colon [':']
  | string (cs s : List Char) (h : IsText cs s) :
      IsSpelled (.string (String.ofList s)) ('"' :: cs ++ ['"'])
  | number (n : Number) (h : n.IsWritten) : IsSpelled (.number n) n.chars
  | true : IsSpelled (.word (.bool .true)) ['t', 'r', 'u', 'e']
  | false : IsSpelled (.word (.bool .false)) ['f', 'a', 'l', 's', 'e']
  | null : IsSpelled (.word .null) ['n', 'u', 'l', 'l']

/-- A text is a row of tokens, with spaces anywhere around them. -/
inductive Row : List Char → List Token → Prop where
  | nil : Row [] []
  | space {cs : List Char} {ts : List Token} (h : Row cs ts) {c : Char} (hc : IsSpace c) :
      Row (cs ++ [c]) ts
  | token {cs : List Char} {ts : List Token} (h : Row cs ts) {t : Token} {ds : List Char}
      (ht : t.IsSpelled ds) : Row (cs ++ ds) (ts ++ [t])

/-- Characters that need no escape stand for themselves. -/
lemma isText_plain {s : List Char} (h : ∀ c ∈ s, c ≠ '"' ∧ c ≠ '\\' ∧ 0x20 ≤ c.toNat) :
    IsText s s := by
  induction s using List.reverseRecOn with
  | nil => exact .nil
  | append_singleton s c ih =>
    obtain ⟨hs, hc⟩ := List.forall_mem_append.mp h
    obtain ⟨hquote, hslash, hcontrol⟩ := hc c (List.mem_singleton_self c)
    exact (ih hs).snoc (.plain c hquote hslash hcontrol)

lemma hexValue?_concat (ds : List Char) (c : Char) :
    hexValue? (ds ++ [c]) =
      (hexValue? ds).bind fun n => (Text.Hex.value? c).map (16 * n + ·) := by
  rw [hexValue?, List.foldlM_append]
  refine congrArg (Option.bind _) (funext fun n => ?_)
  exact bind_pure _

lemma Row.isSpelled {cs : List Char} {ts : List Token} (h : Row cs ts) :
    ∀ t ∈ ts, ∃ ds, t.IsSpelled ds := by
  induction h with
  | nil => exact nofun
  | space _ _ ih => exact ih
  | token _ ht ih =>
    intro t hmem
    rcases List.mem_append.mp hmem with hmem | hmem
    · exact ih t hmem
    · obtain rfl := List.mem_singleton.mp hmem
      exact ⟨_, ht⟩

/-- What every step of a machine keeps up holds of all that it has read. -/
lemma foldlM_invariant {α σ : Type} {step : σ → α → Option σ} {P : List α → σ → Prop}
    (hstep : ∀ {xs s x s'}, P xs s → step s x = some s' → P (xs ++ [x]) s') {xs ys : List α}
    {s s' : σ} (h : P xs s) (hfold : ys.foldlM step s = some s') : P (xs ++ ys) s' := by
  induction ys generalizing xs s with
  | nil =>
    obtain rfl := Option.some.inj hfold
    rw [List.append_nil]
    exact h
  | cons x ys ih =>
    rw [List.foldlM_cons] at hfold
    obtain ⟨next, hnext, hrest⟩ := Option.bind_eq_some_iff.mp hfold
    rw [List.append_cons]
    exact ih (hstep h hnext) hrest

namespace Lexer

/-! ## What is read is a row -/

/-- What has been read of a string, and the characters that it has so far; the latest comes first.
The escape of a high surrogate may stand at its end. -/
inductive InString : List Char → List Char → Option Nat → Prop where
  | plain (cs acc : List Char) (h : IsText cs acc.reverse) : InString cs acc none
  | high (cs acc ds : List Char) (n : Nat) (h : IsText cs acc.reverse)
      (hd : IsUnit ds (0xD800 + n)) (hn : n < 0x400) :
      InString (cs ++ '\\' :: 'u' :: ds) acc (some (0xD800 + n))

/-- What has been read of the token in progress. -/
inductive InToken : List Char → Mode → Prop where
  | between : InToken [] .between
  | word (acc : List Char) : InToken acc.reverse (.word acc)
  | number (acc : List Char) : InToken acc.reverse (.number acc)
  | text (cs acc : List Char) (high : Option Nat) (h : InString cs acc high) :
      InToken ('"' :: cs) (.text acc high)
  | escape (cs acc : List Char) (high : Option Nat) (h : InString cs acc high) :
      InToken ('"' :: cs ++ ['\\']) (.escape acc high)
  | unicode (cs acc ds : List Char) (high : Option Nat) (left value : Nat)
      (h : InString cs acc high) (hleft : 0 < left) (hlength : ds.length + left = 4)
      (hvalue : hexValue? ds = some value) :
      InToken ('"' :: cs ++ '\\' :: 'u' :: ds) (.unicode acc high left value)

/-- What has been read is a row of tokens, whose numbers are in range, and the beginning of one
more. -/
inductive Reading : List Char → State → Prop where
  | intro (cs ds : List Char) (s : State) (hrow : Row cs s.found.reverse)
      (hrange : ∀ n, .number n ∈ s.found → n.inRange = true) (hpart : InToken ds s.mode) :
      Reading (cs ++ ds) s

section

variable {cs ds acc : List Char} {found : List Token} {s s' : State} {c : Char} {t : Token}

lemma isSpelled_of_punctuation? (h : punctuation? c = some t) :
    t.IsSpelled [c] ∧ ∀ n, .number n ≠ t := by
  rw [punctuation?] at h
  split_ifs at h <;> subst c <;> cases h <;> exact ⟨by constructor, by rintro n ⟨⟩⟩

lemma isSpelled_of_wordToken? (h : wordToken? ds = some t) :
    t.IsSpelled ds ∧ ∀ n, .number n ≠ t := by
  rw [wordToken?] at h
  split_ifs at h <;> subst ds <;> cases h <;> exact ⟨by constructor, by rintro n ⟨⟩⟩

lemma isSpelled_of_numberToken? (h : numberToken? ds = some t) :
    t.IsSpelled ds ∧ ∀ n, .number n = t → n.inRange = true := by
  rw [numberToken?] at h
  split at h
  · next n hn =>
    obtain ⟨rfl, hwritten⟩ := Number.ofChars?_eq_some_iff.mp hn
    split_ifs at h with hrange
    obtain rfl := Option.some.inj h
    refine ⟨.number n hwritten, ?_⟩
    rintro m hm
    cases hm
    exact hrange
  · cases h

lemma mem_shortEscapes {d : Char} (h : escaped? c = some d) : (c, d) ∈ shortEscapes := by
  rw [escaped?] at h
  split_ifs at h with hself hb hf hn hr ht
  · obtain rfl := Option.some.inj h
    rcases hself with rfl | rfl | rfl <;> decide
  · subst hb
    cases h
    decide
  · subst hf
    cases h
    decide
  · subst hn
    cases h
    decide
  · subst hr
    cases h
    decide
  · subst ht
    cases h
    decide

lemma isSpace_iff : isSpace c = true ↔ IsSpace c := by
  simp only [isSpace, IsSpace, Bool.or_eq_true, beq_iff_eq, or_assoc]

/-- A token is added to those that have been found. -/
lemma found_cons (hrow : Row cs found.reverse) (hrange : ∀ n, .number n ∈ found → n.inRange = true)
    (ht : t.IsSpelled ds) (hnumber : ∀ n, .number n = t → n.inRange = true) :
    Row (cs ++ ds) (t :: found).reverse ∧ ∀ n, .number n ∈ t :: found → n.inRange = true := by
  rw [List.reverse_cons]
  refine ⟨hrow.token ht, fun n hn => ?_⟩
  rcases List.mem_cons.mp hn with hn | hn
  · exact hnumber n hn
  · exact hrange n hn

/-- Between tokens, the beginning of one more is read. -/
lemma Reading.start (hrow : Row cs found.reverse) (hrange : ∀ n, .number n ∈ found → n.inRange = true)
    (h : start? found c = some s) : Reading (cs ++ [c]) s := by
  rw [start?] at h
  split_ifs at h with hspace hquote hnumeric hletter
  · obtain rfl := Option.some.inj h
    rw [← List.append_nil (cs ++ [c])]
    exact .intro _ _ _ (hrow.space (isSpace_iff.mp hspace)) hrange .between
  · obtain rfl := Option.some.inj h
    subst hquote
    exact .intro _ _ _ hrow hrange (.text [] [] none (.plain [] [] .nil))
  · obtain rfl := Option.some.inj h
    exact .intro _ _ _ hrow hrange (.number [c])
  · obtain rfl := Option.some.inj h
    exact .intro _ _ _ hrow hrange (.word [c])
  · obtain ⟨t, ht, rfl⟩ := Option.map_eq_some_iff.mp h
    obtain ⟨hmark, hnumber⟩ := isSpelled_of_punctuation? ht
    obtain ⟨hrow, hrange⟩ := found_cons hrow hrange hmark fun n hn => absurd hn (hnumber n)
    rw [← List.append_nil (cs ++ [c])]
    exact .intro _ _ _ hrow hrange .between

/-- A word or a number ends where it cannot go on. -/
lemma Reading.next (hrow : Row cs found.reverse) (hrange : ∀ n, .number n ∈ found → n.inRange = true)
    (ht : t.IsSpelled ds) (hnumber : ∀ n, .number n = t → n.inRange = true)
    (h : start? (t :: found) c = some s) : Reading (cs ++ ds ++ [c]) s := by
  obtain ⟨hrow, hrange⟩ := found_cons hrow hrange ht hnumber
  exact .start hrow hrange h

/-- Between two characters of a string. -/
lemma InString.text_of_none {high : Option Nat} (h : InString cs acc high)
    (hhigh : ¬high.isSome = true) : IsText cs acc.reverse := by
  cases h with
  | plain cs acc h => exact h
  | high cs acc ds n h hd hn => exact absurd rfl hhigh

lemma InString.snoc {d : Char} (h : IsText cs acc.reverse) (hpiece : IsPiece ds d) :
    InString (cs ++ ds) (d :: acc) none := by
  refine .plain _ _ ?_
  rw [List.reverse_cons]
  exact h.snoc hpiece

/-- The last digit of an escape completes a character, or a high surrogate. -/
lemma InString.closeUnicode {high : Option Nat} {value : Nat} {m : Mode} (h : InString cs acc high)
    (hunit : IsUnit ds value) (hm : closeUnicode? acc high value = some m) :
    InToken ('"' :: (cs ++ '\\' :: 'u' :: ds)) m := by
  rw [closeUnicode?.eq_def] at hm
  cases h with
  | plain cs acc h =>
    dsimp only at hm
    split_ifs at hm with hlow hhigh
    · obtain rfl := Option.some.inj hm
      obtain ⟨n, rfl⟩ := Nat.exists_eq_add_of_le hhigh.1
      exact .text _ _ _ (.high cs acc ds n h hunit (by omega))
    · obtain rfl := Option.some.inj hm
      exact .text _ _ _ (.snoc h (.unit ds value hunit (by omega)))
  | high cs acc es n h hd hn =>
    dsimp only at hm
    split_ifs at hm with hlow
    obtain rfl := Option.some.inj hm
    obtain ⟨low, rfl⟩ := Nat.exists_eq_add_of_le hlow.1
    have hvalue : 0x10000 + (0xD800 + n - 0xD800) * 0x400 + (0xDC00 + low - 0xDC00) =
        0x10000 + 0x400 * n + low := by omega
    rw [hvalue, List.append_assoc]
    exact .text _ _ _ (.snoc h (.pair es ds n low hd hunit hn (by omega)))

/-- In a string, a character continues it, ends it or begins an escape. -/
lemma Reading.text_step {high : Option Nat} (hrow : Row cs found.reverse)
    (hrange : ∀ n, .number n ∈ found → n.inRange = true) (h : InString ds acc high)
    (hstep : step? ⟨.text acc high, found⟩ c = some s) : Reading (cs ++ ('"' :: ds ++ [c])) s := by
  dsimp only [step?] at hstep
  split_ifs at hstep with hslash hhigh hquote hcontrol
  · obtain rfl := Option.some.inj hstep
    subst hslash
    exact .intro _ _ _ hrow hrange (.escape ds acc high h)
  · obtain rfl := Option.some.inj hstep
    subst hquote
    have hstring : (Token.string (String.ofList acc.reverse)).IsSpelled ('"' :: ds ++ ['"']) :=
      .string ds acc.reverse (h.text_of_none hhigh)
    obtain ⟨hrow, hrange⟩ := found_cons hrow hrange hstring fun n hn => by cases hn
    rw [← List.append_nil (cs ++ _)]
    exact .intro _ _ _ hrow hrange .between
  · obtain rfl := Option.some.inj hstep
    have hplain : IsPiece [c] c := .plain c hquote hslash (Nat.le_of_not_lt hcontrol)
    exact .intro _ _ _ hrow hrange (.text _ _ none (.snoc (h.text_of_none hhigh) hplain))

/-- Behind a backslash, a character makes an escape, or the digits of one follow. -/
lemma Reading.escape_step {high : Option Nat} (hrow : Row cs found.reverse)
    (hrange : ∀ n, .number n ∈ found → n.inRange = true) (h : InString ds acc high)
    (hstep : step? ⟨.escape acc high, found⟩ c = some s) :
    Reading (cs ++ ('"' :: ds ++ ['\\', c])) s := by
  dsimp only [step?] at hstep
  split_ifs at hstep with hu hhigh
  · obtain rfl := Option.some.inj hstep
    subst hu
    exact .intro _ _ _ hrow hrange (.unicode ds acc [] high 4 0 h (by decide) rfl rfl)
  · obtain ⟨d, hd, rfl⟩ := Option.map_eq_some_iff.mp hstep
    have hshort : IsPiece ['\\', c] d := .short c d (mem_shortEscapes hd)
    exact .intro _ _ _ hrow hrange (.text _ _ none (.snoc (h.text_of_none hhigh) hshort))

/-- Each character that is read continues what has been read. -/
lemma Reading.step (h : Reading cs s) (hstep : step? s c = some s') : Reading (cs ++ [c]) s' := by
  obtain ⟨cs, ds, s, hrow, hrange, hpart⟩ := h
  obtain ⟨mode, found⟩ := s
  dsimp only at hrow hrange hpart
  cases hpart with
  | between =>
    rw [List.append_nil]
    exact .start hrow hrange hstep
  | word acc =>
    dsimp only [step?] at hstep
    split_ifs at hstep with hletter
    · obtain rfl := Option.some.inj hstep
      rw [List.append_assoc, ← List.reverse_cons]
      exact .intro _ _ _ hrow hrange (.word (c :: acc))
    · split at hstep
      · next t ht =>
        obtain ⟨hspelled, hnumber⟩ := isSpelled_of_wordToken? ht
        exact .next hrow hrange hspelled (fun n hn => absurd hn (hnumber n)) hstep
      · cases hstep
  | number acc =>
    dsimp only [step?] at hstep
    split_ifs at hstep with hnumeric
    · obtain rfl := Option.some.inj hstep
      rw [List.append_assoc, ← List.reverse_cons]
      exact .intro _ _ _ hrow hrange (.number (c :: acc))
    · split at hstep
      · next t ht =>
        obtain ⟨hspelled, hnumber⟩ := isSpelled_of_numberToken? ht
        exact .next hrow hrange hspelled hnumber hstep
      · cases hstep
  | text body acc high h =>
    rw [List.append_assoc]
    exact .text_step hrow hrange h hstep
  | escape body acc high h =>
    rw [List.append_assoc, List.append_assoc]
    exact .escape_step hrow hrange h hstep
  | unicode body acc ds high left value h hpos hlength hvalue =>
    dsimp only [step?] at hstep
    split at hstep
    · cases hstep
    · next d hd =>
      have hnext : hexValue? (ds ++ [c]) = some (16 * value + d) := by
        rw [hexValue?_concat, hvalue, Option.bind_some, hd, Option.map_some]
      rw [List.append_assoc, List.append_assoc, List.cons_append, List.cons_append]
      split_ifs at hstep with hleft
      · obtain ⟨m, hm, rfl⟩ := Option.map_eq_some_iff.mp hstep
        have hunit : IsUnit (ds ++ [c]) (16 * value + d) := by
          refine ⟨?_, hnext⟩
          rw [List.length_append, List.length_singleton]
          omega
        exact .intro _ _ _ hrow hrange (h.closeUnicode hunit hm)
      · obtain rfl := Option.some.inj hstep
        refine .intro _ _ _ hrow hrange
          (.unicode body acc (ds ++ [c]) high (left - 1) _ h (by omega) ?_ hnext)
        rw [List.length_append, List.length_singleton]
        omega

/-- At the end of a document there is no token in progress, or it is complete. -/
lemma Reading.flush (h : Reading cs s) {ts : List Token} (hts : flush? s = some ts) :
    Row cs ts.reverse ∧ ∀ n, .number n ∈ ts → n.inRange = true := by
  obtain ⟨cs, ds, s, hrow, hrange, hpart⟩ := h
  obtain ⟨mode, found⟩ := s
  cases hpart with
  | between =>
    obtain rfl := Option.some.inj hts
    rw [List.append_nil]
    exact ⟨hrow, hrange⟩
  | word acc =>
    obtain ⟨t, ht, rfl⟩ := Option.map_eq_some_iff.mp hts
    obtain ⟨hspelled, hnumber⟩ := isSpelled_of_wordToken? ht
    exact found_cons hrow hrange hspelled fun n hn => absurd hn (hnumber n)
  | number acc =>
    obtain ⟨t, ht, rfl⟩ := Option.map_eq_some_iff.mp hts
    obtain ⟨hspelled, hnumber⟩ := isSpelled_of_numberToken? ht
    exact found_cons hrow hrange hspelled hnumber
  | text | escape | unicode => cases hts

end

end Lexer

/-- **What is read is a row.**  The tokens of a document are a row that spells it, and its numbers
are in range. -/
theorem Token.row_of_ofChars? {cs : List Char} {ts : List Token}
    (h : Token.ofChars? cs = some ts) : Row cs ts ∧ ∀ n, .number n ∈ ts → n.inRange = true := by
  rw [Token.ofChars?] at h
  split at h
  · next s hs =>
    rw [Lexer.finish?_eq] at h
    obtain ⟨found, hfound, rfl⟩ := Option.map_eq_some_iff.mp h
    have hnone : ∀ n, Token.number n ∈ [] → n.inRange = true := fun n hn => absurd hn List.not_mem_nil
    have hreading : Lexer.Reading [] ⟨.between, []⟩ := .intro [] [] _ .nil hnone .between
    obtain ⟨hrow, hrange⟩ := (foldlM_invariant Lexer.Reading.step hreading hs).flush hfound
    refine ⟨hrow, fun n hn => hrange n (List.mem_reverse.mp hn)⟩
  · cases h

/-! ## Rows are read -/

/-- Whether a token may go on with the next character. -/
def Token.isOpen : Token → Bool
  | number _ | word _ => true
  | _ => false

/-- No two words or numbers stand side by side. -/
def Apart (ts : List Token) : Prop :=
  ts.IsChain fun t u => t.isOpen = true → u.isOpen = false

namespace Lexer

variable {cs ds acc s : List Char} {found ts : List Token} {c : Char} {t : Token} {n : Nat}

/-- The four digits of an escape are read one by one. -/
lemma foldlM_unit (h : IsUnit ds n) (acc : List Char) (high : Option Nat) (found : List Token) :
    ('\\' :: 'u' :: ds).foldlM step? ⟨.text acc high, found⟩ =
      (closeUnicode? acc high n).map fun m => ⟨m, found⟩ := by
  obtain ⟨hlength, hvalue⟩ := h
  obtain ⟨a, b, c, d, rfl⟩ := List.length_eq_four.mp hlength
  rw [hexValue?] at hvalue
  simp only [List.foldlM_cons, List.foldlM_nil, Option.bind_eq_bind, Option.bind_eq_some_iff,
    Option.map_eq_some_iff] at hvalue
  obtain ⟨-, ⟨va, ha, rfl⟩, -, ⟨vb, hb, rfl⟩, -, ⟨vc, hc, rfl⟩, -, ⟨vd, hd, rfl⟩, hn⟩ := hvalue
  obtain rfl := Option.some.inj hn
  simp [step?, ha, hb, hc, hd]

lemma foldlM_piece {piece : List Char} (h : IsPiece piece c) (acc : List Char)
    (found : List Token) :
    piece.foldlM step? ⟨.text acc none, found⟩ = some ⟨.text (c :: acc) none, found⟩ := by
  cases h with
  | plain c hquote hslash hcontrol =>
    have hstep : step? ⟨.text acc none, found⟩ c = some ⟨.text (c :: acc) none, found⟩ := by
      simp [step?, hquote, hslash, Nat.not_lt.mpr hcontrol]
    rw [List.foldlM_cons, hstep]
    rfl
  | short letter c h =>
    have hletters : ∀ e ∈ shortEscapes, ['\\', e.1].foldlM step? ⟨.text acc none, found⟩ =
        some ⟨.text (e.2 :: acc) none, found⟩ := by
      intro e he
      simp only [shortEscapes, List.mem_cons, List.not_mem_nil, or_false] at he
      rcases he with rfl | rfl | rfl | rfl | rfl | rfl | rfl | rfl <;> rfl
    exact hletters _ h
  | unit ds n h hn =>
    have hlow : ¬(0xDC00 ≤ n ∧ n ≤ 0xDFFF) := by omega
    have hhigh : ¬(0xD800 ≤ n ∧ n ≤ 0xDBFF) := by omega
    rw [foldlM_unit h, closeUnicode?, if_neg hlow, if_neg hhigh, Option.map_some]
  | pair ds es high low hd he hhigh hlow =>
    have hfirst : ¬(0xDC00 ≤ 0xD800 + high ∧ 0xD800 + high ≤ 0xDFFF) := by omega
    have hsecond : 0xD800 ≤ 0xD800 + high ∧ 0xD800 + high ≤ 0xDBFF := by omega
    have hthird : 0xDC00 ≤ 0xDC00 + low ∧ 0xDC00 + low ≤ 0xDFFF := by omega
    have hvalue : 0x10000 + (0xD800 + high - 0xD800) * 0x400 + (0xDC00 + low - 0xDC00) =
        0x10000 + 0x400 * high + low := by omega
    rw [List.foldlM_append, foldlM_unit hd, closeUnicode?, if_neg hfirst, if_pos hsecond,
      Option.map_some, Option.bind_eq_bind, Option.bind_some, foldlM_unit he, closeUnicode?,
      if_pos hthird, hvalue, Option.map_some]

lemma foldlM_text (h : IsText cs s) (found : List Token) :
    cs.foldlM step? ⟨.text [] none, found⟩ = some ⟨.text s.reverse none, found⟩ := by
  induction h with
  | nil => rfl
  | snoc _ hpiece ih =>
    rw [List.foldlM_append, ih, List.reverse_append]
    exact foldlM_piece hpiece _ found

/-- The tokens have been read, and only a word or a number may be in progress. -/
def IsAt (ts : List Token) (st : State) : Prop :=
  flush? st = some ts.reverse ∧ (st = ⟨.between, ts.reverse⟩ ∨
    ∃ t, ts.getLast? = some t ∧ t.isOpen = true)

lemma isAt_between (ts : List Token) : IsAt ts ⟨.between, ts.reverse⟩ := ⟨rfl, .inl rfl⟩

/-- A space ends what stands before it. -/
lemma IsAt.space {st : State} (h : IsAt ts st) (hc : IsSpace c) :
    step? st c = some ⟨.between, ts.reverse⟩ := by
  have hletter : isLetter c = false ∧ isNumeric c = false := by
    rcases hc with rfl | rfl | rfl | rfl <;> decide
  rw [step?_of_flush? h.1 hletter.1 hletter.2, start?, if_pos (isSpace_iff.mpr hc)]

/-- A token that stands by itself is read behind any other. -/
lemma IsAt.mark {st : State} (h : IsAt ts st) (hmark : punctuation? c = some t) :
    step? st c = some ⟨.between, (ts ++ [t]).reverse⟩ := by
  obtain ⟨hletter, hnumeric, hstart⟩ := eq_of_punctuation? hmark
  rw [step?_of_flush? h.1 hletter hnumeric, hstart, List.reverse_concat]

lemma IsAt.quote {st : State} (h : IsAt ts st) (htext : IsText cs s) :
    ('"' :: cs ++ ['"']).foldlM step? st =
      some ⟨.between, (ts ++ [Token.string (String.ofList s)]).reverse⟩ := by
  have hopen : step? st '"' = some ⟨.text [] none, ts.reverse⟩ :=
    step?_of_flush? h.1 (by decide) (by decide)
  have hclose : step? ⟨.text s.reverse none, ts.reverse⟩ '"' =
      some ⟨.between, .string (String.ofList s) :: ts.reverse⟩ := by
    simp [step?]
  rw [List.cons_append, List.foldlM_cons, hopen, Option.bind_eq_bind, Option.bind_some,
    List.foldlM_append, foldlM_text htext, Option.bind_eq_bind, Option.bind_some,
    List.foldlM_cons, hclose, List.reverse_concat]
  rfl

/-- A word or a number is read where no other stands before it. -/
lemma IsAt.reads {st : State} (h : IsAt ts st) (hopen : t.isOpen = true)
    (hapart : Apart (ts ++ [t])) (hreads : Reads cs [t]) :
    ∃ st', cs.foldlM step? st = some st' ∧ IsAt (ts ++ [t]) st' := by
  obtain ⟨-, rfl | ⟨u, hu, huopen⟩⟩ := h
  · obtain ⟨st', hst', hflush⟩ := hreads ts.reverse
    refine ⟨st', hst', ?_, .inr ⟨t, by simp, hopen⟩⟩
    rw [hflush, List.reverse_concat]
    rfl
  · have hlast := (List.isChain_append.mp hapart).2.2 u hu t rfl huopen
    rw [hopen] at hlast
    cases hlast

/-- Every row is read, if its words and numbers can be told apart. -/
lemma isAt_of_row (h : Row cs ts) (hapart : Apart ts)
    (hrange : ∀ n, .number n ∈ ts → n.inRange = true) :
    ∃ st, cs.foldlM step? ⟨.between, []⟩ = some st ∧ IsAt ts st := by
  induction h with
  | nil => exact ⟨_, rfl, isAt_between []⟩
  | @space cs ts _ c hc ih =>
    obtain ⟨st, hst, hat⟩ := ih hapart hrange
    refine ⟨_, ?_, isAt_between ts⟩
    rw [List.foldlM_append, hst, Option.bind_eq_bind, Option.bind_some, List.foldlM_cons,
      hat.space hc]
    rfl
  | @token cs ts _ t ds ht ih =>
    obtain ⟨st, hst, hat⟩ := ih hapart.left_of_append
      fun n hn => hrange n (List.mem_append_left _ hn)
    have hnext {st' : State} (hds : ds.foldlM step? st = some st') :
        (cs ++ ds).foldlM step? ⟨.between, []⟩ = some st' := by
      rw [List.foldlM_append, hst]
      exact hds
    have hmark {c : Char} (hc : punctuation? c = some t) (hds : ds = [c]) :
        ∃ st, (cs ++ ds).foldlM step? ⟨.between, []⟩ = some st ∧ IsAt (ts ++ [t]) st := by
      refine ⟨_, hnext ?_, isAt_between (ts ++ [t])⟩
      rw [hds, List.foldlM_cons, hat.mark hc]
      rfl
    have hopen (hopen : t.isOpen = true) (hreads : Reads ds [t]) :
        ∃ st, (cs ++ ds).foldlM step? ⟨.between, []⟩ = some st ∧ IsAt (ts ++ [t]) st := by
      obtain ⟨st', hst', hat'⟩ := hat.reads hopen hapart hreads
      exact ⟨st', hnext hst', hat'⟩
    cases ht with
    | openArray | closeArray | openObject | closeObject | comma | colon => exact hmark rfl rfl
    | string body s htext => exact ⟨_, hnext (hat.quote htext), isAt_between _⟩
    | number n hn =>
      have hinRange := hrange n (List.mem_append_right _ (List.mem_singleton_self _))
      exact hopen rfl (reads_number ⟨Number.ofChars?_eq_some_iff.mpr ⟨rfl, hn⟩, hinRange⟩)
    | true | false | null => exact hopen rfl fun found => ⟨_, rfl, rfl⟩

end Lexer

/-- **Rows are read.**  A text that is a row of tokens is cut into these tokens, if its words and
numbers can be told apart and its numbers are in range. -/
theorem Token.ofChars?_of_row {cs : List Char} {ts : List Token} (h : Row cs ts)
    (hapart : Apart ts) (hrange : ∀ n, .number n ∈ ts → n.inRange = true) :
    Token.ofChars? cs = some ts := by
  obtain ⟨st, hst, hflush, -⟩ := Lexer.isAt_of_row h hapart hrange
  rw [Token.ofChars?, hst]
  simp [Lexer.finish?_eq, hflush]

end FleetAgent.Json
