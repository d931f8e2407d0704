/-
# Cutting what has been written

A written value is cut into its tokens again.  The cutting machine is between two tokens before
and after most parts of a document (`Lexer.Cuts`).  Only a word or a number is still in progress
at its end: it is complete when the next character is a punctuation mark, or when the document
ends (`Lexer.Reads`).

The parts are put together in the order of writing, so what is shown of a value follows from what
is shown of its items or members, by induction on the depth of the value (`Value.Readable`).
-/
import FleetAgent.Json.Printer
import FleetAgent.Json.Token
import Mathlib.Data.List.TakeWhile
import Mathlib.Tactic.Common

namespace FleetAgent

/-- A digit below sixteen is read back. -/
lemma Text.Hex.value?_digit : ∀ n < 16, value? (digit n) = some n := by
  decide

namespace Json

/-! ## Values and their tokens -/

/-- A number that is read back from its written form. -/
structure Number.Readable (n : Number) : Prop where
  ofChars? : Number.ofChars? n.chars = some n
  inRange : n.inRange = true

/-- A value whose containers are nested at most `depth` deep, and whose numbers are read back. -/
inductive Value.Readable : Nat → Value → Prop where
  | null (depth : Nat) : Readable depth .null
  | bool (depth : Nat) (b : Bool) : Readable depth (.bool b)
  | number (depth : Nat) (n : Number) (h : n.Readable) : Readable depth (.number n)
  | string (depth : Nat) (s : String) : Readable depth (.string s)
  | array (depth : Nat) (items : List Value) (h : ∀ v ∈ items, Readable depth v) :
      Readable (depth + 1) (.array items)
  | object (depth : Nat) (members : List (String × Value))
      (h : ∀ m ∈ members, Readable depth m.2) : Readable (depth + 1) (.object members)

namespace Value

mutual

/-- The tokens of a value. -/
def tokens : Value → List Token
  | null => [.word .null]
  | bool b => [.word (.bool b)]
  | number n => [.number n]
  | string s => [.string s]
  | array items => .openArray :: itemsTokens items
  | object members => .openObject :: membersTokens members

/-- The tokens of the items of an array, up to its end. -/
def itemsTokens : List Value → List Token
  | [] => [.closeArray]
  | [v] => v.tokens ++ [.closeArray]
  | v :: vs => v.tokens ++ .comma :: itemsTokens vs

/-- The tokens of the members of an object, up to its end. -/
def membersTokens : List (String × Value) → List Token
  | [] => [.closeObject]
  | [(name, v)] => .string name :: .colon :: v.tokens ++ [.closeObject]
  | (name, v) :: ms => .string name :: .colon :: v.tokens ++ .comma :: membersTokens ms

end

end Value

/-! ## Parts of a document -/

namespace Lexer

/-- The tokens found so far if the word or the number in progress, if any, ends here; the latest
comes first. -/
def flush? (s : State) : Option (List Token) :=
  match s.mode with
  | .between => some s.found
  | .word acc => (wordToken? acc.reverse).map (· :: s.found)
  | .number acc => (numberToken? acc.reverse).map (· :: s.found)
  | _ => none

/-- A text is cut into tokens, whatever stands behind it. -/
def Cuts (cs : List Char) (ts : List Token) : Prop :=
  ∀ found, cs.foldlM step? ⟨.between, found⟩ = some ⟨.between, ts.reverse ++ found⟩

/-- A text is cut into tokens, if the last of them ends there. -/
def Reads (cs : List Char) (ts : List Token) : Prop :=
  ∀ found, ∃ s, cs.foldlM step? ⟨.between, found⟩ = some s ∧ flush? s = some (ts.reverse ++ found)

variable {cs ds : List Char} {ts us : List Token} {c : Char} {t : Token} {found : List Token}

lemma finish?_eq (s : State) : finish? s = (flush? s).map List.reverse := by
  rw [finish?, flush?]
  split <;> simp [*, Function.comp_def]

/-- A character that cannot go on a word or a number ends it. -/
lemma step?_of_flush? {s : State} (h : flush? s = some found) (hletter : isLetter c = false)
    (hnumeric : isNumeric c = false) : step? s c = start? found c := by
  obtain ⟨mode, before⟩ := s
  cases mode with
  | between =>
    cases h
    rfl
  | word acc =>
    obtain ⟨t, ht, rfl⟩ := Option.map_eq_some_iff.mp h
    simp only [step?, hletter, ht, Bool.false_eq_true, if_false]
  | number acc =>
    obtain ⟨t, ht, rfl⟩ := Option.map_eq_some_iff.mp h
    simp only [step?, hnumeric, ht, Bool.false_eq_true, if_false]
  | text | escape | unicode => cases h

lemma Cuts.reads (h : Cuts cs ts) : Reads cs ts :=
  fun found => ⟨_, h found, rfl⟩

lemma cuts_nil : Cuts [] [] :=
  fun _ => rfl

lemma Cuts.append (h : Cuts cs ts) (hlater : Cuts ds us) : Cuts (cs ++ ds) (ts ++ us) := by
  intro found
  rw [List.foldlM_append, h found, List.reverse_append, List.append_assoc]
  exact hlater _

lemma Cuts.append_reads (h : Cuts cs ts) (hlater : Reads ds us) :
    Reads (cs ++ ds) (ts ++ us) := by
  intro found
  rw [List.foldlM_append, h found, List.reverse_append, List.append_assoc]
  exact hlater _

/-- A punctuation mark is a token of its own wherever it stands. -/
lemma eq_of_punctuation? (h : punctuation? c = some t) :
    isLetter c = false ∧ isNumeric c = false ∧
      ∀ found, start? found c = some ⟨.between, t :: found⟩ := by
  rw [punctuation?] at h
  split_ifs at h <;> subst c <;> cases h <;> exact ⟨by decide, by decide, fun _ => rfl⟩

/-- A punctuation mark ends what stands before it. -/
lemma Reads.punctuated (h : Reads cs ts) (hmark : punctuation? c = some t) :
    Cuts (cs ++ [c]) (ts ++ [t]) := by
  intro found
  obtain ⟨s, hs, hflush⟩ := h found
  obtain ⟨hletter, hnumeric, hstart⟩ := eq_of_punctuation? hmark
  rw [List.foldlM_append, hs, List.reverse_concat]
  exact (bind_pure _).trans ((step?_of_flush? hflush hletter hnumeric).trans (hstart _))

lemma cuts_punctuation (hmark : punctuation? c = some t) : Cuts [c] [t] :=
  cuts_nil.reads.punctuated hmark

/-! ### Strings -/

/-- A character that is written in a string is read back. -/
lemma foldlM_escapeChar (c : Char) (acc : List Char) (found : List Token) :
    (escapeChar c).foldlM step? ⟨.text acc none, found⟩ = some ⟨.text (c :: acc) none, found⟩ := by
  rw [escapeChar]
  split_ifs with hquote hslash hb hf hn hr ht hcontrol
  iterate 7
    · subst c
      rfl
  · have hhigh := Text.Hex.value?_digit (c.toNat / 16) (by omega)
    have hlow := Text.Hex.value?_digit (c.toNat % 16) (by omega)
    have hvalue : 16 * (c.toNat / 16) + c.toNat % 16 = c.toNat := Nat.div_add_mod _ _
    have hplain : ¬ (0xDC00 ≤ c.toNat ∧ c.toNat ≤ 0xDFFF)
        ∧ ¬ (0xD800 ≤ c.toNat ∧ c.toNat ≤ 0xDBFF) := by omega
    have hopen : ['\\', 'u', '0', '0'].foldlM step? ⟨.text acc none, found⟩
        = some ⟨.unicode acc none 2 0, found⟩ := rfl
    refine (List.foldlM_append (l := ['\\', 'u', '0', '0']) ..).trans ?_
    rw [hopen]
    simp [step?, hhigh, hlow, hvalue, closeUnicode?, hplain, Char.ofNat_toNat]
  · simp [step?, hquote, hslash, hcontrol]

lemma foldlM_escapeChars (cs acc : List Char) (found : List Token) :
    (cs.flatMap escapeChar).foldlM step? ⟨.text acc none, found⟩
      = some ⟨.text (cs.reverse ++ acc) none, found⟩ := by
  induction cs generalizing acc with
  | nil => rfl
  | cons c cs ih =>
    rw [List.flatMap_cons, List.foldlM_append, foldlM_escapeChar, List.reverse_cons,
      List.append_assoc]
    exact ih (c :: acc)

lemma cuts_quote (s : String) : Cuts (quote s) [.string s] := by
  intro found
  have hopen : step? ⟨.between, found⟩ '"' = some ⟨.text [] none, found⟩ := rfl
  have hclose : step? ⟨.text (s.toList.reverse ++ []) none, found⟩ '"'
      = some ⟨.between, .string s :: found⟩ := by simp [step?]
  rw [quote, List.cons_append, List.foldlM_cons, hopen, Option.bind_eq_bind, Option.bind_some,
    List.foldlM_append, foldlM_escapeChars, Option.bind_eq_bind, Option.bind_some,
    List.foldlM_cons, hclose]
  rfl

/-! ### Numbers -/

lemma isNumeric_of_isDigit (h : Numeral.isDigit c = true) : isNumeric c = true := by
  simp [isNumeric, h]

lemma isNumeric_of_all (h : cs.all Numeral.isDigit = true) : ∀ c ∈ cs, isNumeric c = true :=
  fun c hc => isNumeric_of_isDigit (List.all_eq_true.mp h c hc)

lemma isNumeric_of_exponent? {e : Option Exponent} (h : Number.exponent? cs = some e) :
    ∀ c ∈ cs, isNumeric c = true := by
  cases cs with
  | nil => simp
  | cons mark rest =>
    unfold Number.exponent? at h
    dsimp only at h
    by_cases hmark : mark = 'e' ∨ mark = 'E'
    · rw [if_pos hmark] at h
      have hletter : isNumeric mark = true := by rcases hmark with rfl | rfl <;> rfl
      refine List.forall_mem_cons.mpr ⟨hletter, ?_⟩
      -- the digits follow at once, or after a sign
      split at h <;> split_ifs at h with hdigits <;>
        have hall := isNumeric_of_all (Bool.and_eq_true_iff.mp hdigits).2
      · exact List.forall_mem_cons.mpr ⟨rfl, hall⟩
      · exact List.forall_mem_cons.mpr ⟨rfl, hall⟩
      · exact hall
    · rw [if_neg hmark] at h
      cases h

/-- A number without its sign begins with a digit, and goes on with what numbers are made of. -/
lemma isNumeric_of_ofUnsigned? {negative : Bool} {n : Number}
    (h : Number.ofUnsigned? negative cs = some n) :
    (∃ c rest, cs = c :: rest ∧ Numeral.isDigit c = true) ∧ ∀ c ∈ cs, isNumeric c = true := by
  have htake (ds : List Char) : ∀ c ∈ ds.takeWhile Numeral.isDigit, isNumeric c = true :=
    fun c hc => isNumeric_of_isDigit (List.mem_takeWhile_imp hc)
  rw [Number.ofUnsigned?] at h
  split_ifs at h with hwhole
  constructor
  · cases cs with
    | nil => exact absurd rfl hwhole
    | cons c rest =>
      refine ⟨c, rest, rfl, ?_⟩
      by_contra hdigit
      exact hwhole (by simp [hdigit, Number.isWhole])
  · rw [← List.takeWhile_append_dropWhile (p := Numeral.isDigit) (l := cs)]
    refine List.forall_mem_append.mpr ⟨htake cs, ?_⟩
    split at h
    · next rest hrest =>
      dsimp only at h
      split_ifs at h with hempty
      obtain ⟨e, he, -⟩ := Option.map_eq_some_iff.mp h
      rw [hrest, ← List.takeWhile_append_dropWhile (p := Numeral.isDigit) (l := rest)]
      exact List.forall_mem_cons.mpr
        ⟨rfl, List.forall_mem_append.mpr ⟨htake rest, isNumeric_of_exponent? he⟩⟩
    · next hrest =>
      obtain ⟨e, he, -⟩ := Option.map_eq_some_iff.mp h
      exact isNumeric_of_exponent? he

/-- A number begins with a digit or a sign, and goes on with what numbers are made of. -/
lemma isNumeric_of_ofChars? {n : Number} (h : Number.ofChars? cs = some n) :
    (∃ c rest, cs = c :: rest ∧ (Numeral.isDigit c = true ∨ c = '-')) ∧
      ∀ c ∈ cs, isNumeric c = true := by
  rw [Number.ofChars?.eq_def] at h
  split at h
  · next rest =>
    have hrest := (isNumeric_of_ofUnsigned? h).2
    exact ⟨⟨'-', rest, rfl, .inr rfl⟩, List.forall_mem_cons.mpr ⟨rfl, hrest⟩⟩
  · obtain ⟨⟨c, rest, hcs, hdigit⟩, hall⟩ := isNumeric_of_ofUnsigned? h
    exact ⟨⟨c, rest, hcs, .inl hdigit⟩, hall⟩

/-- A digit or a sign begins a number. -/
lemma start?_of_isDigit_or (h : Numeral.isDigit c = true ∨ c = '-') :
    start? found c = some ⟨.number [c], found⟩ := by
  rcases h with hdigit | rfl
  · have hne {d : Char} (hd : Numeral.isDigit d = false) : c ≠ d := by
      rintro rfl
      exact absurd hdigit (by simp [hd])
    have hspace : isSpace c = false := by
      simp [isSpace, hne (d := ' ') rfl, hne (d := '\t') rfl, hne (d := '\n') rfl,
        hne (d := '\r') rfl]
    simp [start?, hspace, isNumeric_of_isDigit hdigit, hne (d := '"') rfl, hne (d := 'e') rfl,
      hne (d := 'E') rfl]
  · rfl

lemma foldlM_isNumeric (h : ∀ c ∈ cs, isNumeric c = true) (acc : List Char) :
    cs.foldlM step? ⟨.number acc, found⟩ = some ⟨.number (cs.reverse ++ acc), found⟩ := by
  induction cs generalizing acc with
  | nil => rfl
  | cons c cs ih =>
    obtain ⟨hc, hcs⟩ := List.forall_mem_cons.mp h
    have hstep : step? ⟨.number acc, found⟩ c = some ⟨.number (c :: acc), found⟩ := if_pos hc
    rw [List.foldlM_cons, hstep, List.reverse_cons, List.append_assoc]
    exact ih hcs (c :: acc)

lemma reads_number {n : Number} (h : n.Readable) : Reads n.chars [.number n] := by
  intro found
  obtain ⟨⟨c, rest, hchars, hc⟩, hall⟩ := isNumeric_of_ofChars? h.ofChars?
  have htoken : numberToken? n.chars = some (.number n) := by
    simp only [numberToken?, h.ofChars?, h.inRange, if_true]
  rw [hchars] at hall htoken ⊢
  refine ⟨⟨.number (rest.reverse ++ [c]), found⟩, ?_, ?_⟩
  · rw [List.foldlM_cons, show step? ⟨.between, found⟩ c = _ from start?_of_isDigit_or hc]
    exact foldlM_isNumeric (List.forall_mem_cons.mp hall).2 [c]
  · simp [flush?, htoken]

/-! ### Containers -/

/-- The items of an array are cut one after the other. -/
lemma cuts_itemsChars {items : List Value} (h : ∀ v ∈ items, Reads v.chars v.tokens) :
    Cuts (Value.itemsChars items) (Value.itemsTokens items) := by
  induction items with
  | nil => exact cuts_punctuation rfl
  | cons v items ih =>
    obtain ⟨hv, hitems⟩ := List.forall_mem_cons.mp h
    cases items with
    | nil => exact hv.punctuated rfl
    | cons w items =>
      have hcomma := (hv.punctuated (c := ',') (t := .comma) rfl).append (ih hitems)
      simpa only [Value.itemsChars, Value.itemsTokens, List.append_assoc, List.singleton_append]
        using hcomma

/-- The members of an object are cut one after the other. -/
lemma cuts_membersChars {members : List (String × Value)}
    (h : ∀ m ∈ members, Reads m.2.chars m.2.tokens) :
    Cuts (Value.membersChars members) (Value.membersTokens members) := by
  induction members with
  | nil => exact cuts_punctuation rfl
  | cons m members ih =>
    obtain ⟨name, v⟩ := m
    obtain ⟨hv, hmembers⟩ := List.forall_mem_cons.mp h
    have hname : Cuts (quote name ++ [':']) [.string name, .colon] :=
      (cuts_quote name).append (cuts_punctuation rfl)
    have hmember := hname.append_reads hv
    cases members with
    | nil =>
      have hend := hmember.punctuated (c := '\x7d') (t := .closeObject) rfl
      simpa only [Value.membersChars, Value.membersTokens, List.append_assoc, List.cons_append,
        List.nil_append] using hend
    | cons m members =>
      have hcomma := (hmember.punctuated (c := ',') (t := .comma) rfl).append (ih hmembers)
      simpa only [Value.membersChars, Value.membersTokens, List.append_assoc, List.cons_append,
        List.nil_append] using hcomma

/-- A value is read; its last word or number ends with it. -/
lemma reads_chars {depth : Nat} {v : Value} (h : v.Readable depth) : Reads v.chars v.tokens := by
  induction h with
  | null depth => exact fun found => ⟨_, rfl, rfl⟩
  | bool depth b => cases b <;> exact fun found => ⟨_, rfl, rfl⟩
  | number depth n h => exact reads_number h
  | string depth s => exact (cuts_quote s).reads
  | array depth items h ih =>
    exact ((cuts_punctuation (c := '[') rfl).append (cuts_itemsChars ih)).reads
  | object depth members h ih =>
    exact ((cuts_punctuation (c := '\x7b') rfl).append (cuts_membersChars ih)).reads

end Lexer

/-- **A written value is cut into its tokens.** -/
theorem Token.ofChars?_chars {depth : Nat} {v : Value} (h : v.Readable depth) :
    Token.ofChars? v.chars = some v.tokens := by
  obtain ⟨s, hs, hflush⟩ := Lexer.reads_chars h []
  rw [Token.ofChars?, hs]
  simp [Lexer.finish?_eq, hflush]

end Json

end FleetAgent
