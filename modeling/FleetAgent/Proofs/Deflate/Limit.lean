/-
# Inflating up to a limit

The output of a decoder only grows.  Whether it is full is looked at between two symbols, so a
decoder with a lower limit does the same as one with a greater limit until its output has reached
the limit; it stops there, and the other goes on (`Cuts`).  This holds of the symbols of a block,
and from that of the blocks of a stream, by induction on the symbols and on the blocks.

So what is inflated up to a limit is a front of what is inflated up to a greater one, and is the
same unless it has reached the limit (`inflate_limits`).
-/
import FleetAgent.Deflate.Inflate
import Mathlib.Data.List.Infix
import Mathlib.Tactic.Common

namespace FleetAgent.Deflate

variable {out out' : Output} {s : Bits} {codes : Codes} {limit limit' : Nat}

/-! ## Output grows -/

/-- Output that comes from some output by appending. -/
def Extends (out out' : Output) : Prop :=
  out.toList <+: out'.toList

lemma Extends.refl (out : Output) : Extends out out :=
  List.prefix_refl _

lemma Extends.trans {out'' : Output} (h : Extends out out') (h' : Extends out' out'') :
    Extends out out'' :=
  List.IsPrefix.trans h h'

lemma extends_append (out : Output) (bytes : List UInt8) : Extends out (out ++ bytes.toArray) := by
  rw [Extends, Array.toList_append]
  exact List.prefix_append _ _

lemma extends_push (out : Output) (b : UInt8) : Extends out (out.push b) := by
  rw [Extends, Array.toList_push]
  exact List.prefix_append _ _

lemma extends_copyBack (distance length : Nat) (out : Output) :
    Extends out (copyBack distance length out) := by
  induction length generalizing out with
  | zero => exact .refl out
  | succ length ih => exact (extends_push out _).trans (ih _)

/-- The output of a part of a stream. -/
def Progress.output : Progress → Output
  | .ok (_, out) => out
  | .error (_, out) => out

/-! ## Symbols -/

/-- What comes of the next symbol: the end of the block, or the bits behind the symbol with the
output after it. -/
def afterSymbol (codes : Codes) (s : Bits) (out : Output) : Except Progress (Bits × Output) :=
  match codes.literal.read s with
  | .error e => .error (.error (e, out))
  | .ok (symbol, s) =>
    if symbol < 256 then .ok (s, out.push (UInt8.ofNat symbol))
    else if symbol = 256 then .error (.ok (s, out))
    else match copyOf codes symbol s with
      | .error e => .error (.error (e, out))
      | .ok ((length, distance), s) => .ok (s, copyBack distance length out)

section

-- the tables of lengths and distances are not looked into
attribute [local irreducible] copyOf

lemma symbols_succ (codes : Codes) (limit fuel : Nat) (s : Bits) (out : Output) :
    symbols codes limit (fuel + 1) s out =
      if limit ≤ out.size then .error (.full, out)
      else match afterSymbol codes s out with
        | .error r => r
        | .ok (s, out) => symbols codes limit fuel s out := by
  have hnext : symbols codes limit (fuel + 1) s out =
      if limit ≤ out.size then .error (.full, out)
      else match codes.literal.read s with
        | .error e => .error (e, out)
        | .ok (symbol, s) =>
          if symbol < 256 then symbols codes limit fuel s (out.push (UInt8.ofNat symbol))
          else if symbol = 256 then .ok (s, out)
          else match copyOf codes symbol s with
            | .error e => .error (e, out)
            | .ok ((length, distance), s) =>
              symbols codes limit fuel s (copyBack distance length out) := rfl
  rw [hnext, afterSymbol]
  split
  · rfl
  · split
    · rfl
    · split
      · rfl
      · split
        · rfl
        · split <;> rfl

end

lemma extends_of_afterSymbol_error {r : Progress} (h : afterSymbol codes s out = .error r) :
    Extends out r.output := by
  rw [afterSymbol] at h
  split at h
  · obtain rfl := Except.error.inj h
    exact .refl out
  · split_ifs at h
    · obtain rfl := Except.error.inj h
      exact .refl out
    · split at h
      · obtain rfl := Except.error.inj h
        exact .refl out
      · cases h

lemma extends_of_afterSymbol_ok {s' : Bits} (h : afterSymbol codes s out = .ok (s', out')) :
    Extends out out' := by
  rw [afterSymbol] at h
  split at h
  · cases h
  · split_ifs at h
    · obtain ⟨-, rfl⟩ := Prod.mk.inj (Except.ok.inj h)
      exact extends_push out _
    · split at h
      · cases h
      · obtain ⟨-, rfl⟩ := Prod.mk.inj (Except.ok.inj h)
        exact extends_copyBack _ _ out

lemma extends_symbols (codes : Codes) (limit fuel : Nat) (s : Bits) (out : Output) :
    Extends out (symbols codes limit fuel s out).output := by
  induction fuel generalizing s out with
  | zero => exact .refl out
  | succ fuel ih =>
    rw [symbols_succ]
    split
    · exact .refl out
    · split
      · next r hr => exact extends_of_afterSymbol_error hr
      · next s' out' hnext => exact (extends_of_afterSymbol_ok hnext).trans (ih s' out')

lemma extends_block (limit type : Nat) (s : Bits) (out : Output) :
    Extends out (block limit type s out).output := by
  rw [block.eq_def]
  split
  · split
    · exact .refl out
    · exact extends_append out _
  · exact extends_symbols ..
  · split
    · exact .refl out
    · exact extends_symbols ..
  · exact .refl out

lemma extends_blocks (limit fuel : Nat) (s : Bits) (out : Output) :
    Extends out (blocks limit fuel s out).2 := by
  induction fuel generalizing s out with
  | zero =>
    rw [blocks]
    exact .refl out
  | succ fuel ih =>
    rw [blocks]
    split
    · exact .refl out
    · split
      · exact .refl out
      · next last type s' _ =>
        have hgrows := extends_block limit type s' out
        split
        · next r hblock =>
          rw [hblock] at hgrows
          exact hgrows
        · next s'' out' hblock =>
          rw [hblock] at hgrows
          split
          · exact hgrows
          · exact hgrows.trans (ih _ _)

/-! ## Two limits -/

/-- What comes of decoding up to a limit, against what comes of it up to a greater one: the same, or
it stops because its output, which is a front of the other, has reached the limit. -/
def Cuts (limit : Nat) (r r' : Progress) : Prop :=
  r = r' ∨ ∃ out, r = .error (.full, out) ∧ limit ≤ out.size ∧ Extends out r'.output

lemma cuts_refl (limit : Nat) (r : Progress) : Cuts limit r r :=
  .inl rfl

lemma cuts_symbols (codes : Codes) (h : limit ≤ limit') (fuel : Nat) (s : Bits) (out : Output) :
    Cuts limit (symbols codes limit fuel s out) (symbols codes limit' fuel s out) := by
  induction fuel generalizing s out with
  | zero => exact cuts_refl limit _
  | succ fuel ih =>
    have hgrows := extends_symbols codes limit' (fuel + 1) s out
    by_cases hfull : limit ≤ out.size
    · rw [symbols_succ, if_pos hfull]
      exact .inr ⟨out, rfl, hfull, hgrows⟩
    · rw [symbols_succ, symbols_succ, if_neg hfull, if_neg fun hle => hfull (h.trans hle)]
      cases afterSymbol codes s out with
      | error r => exact cuts_refl limit r
      | ok next => exact ih next.1 next.2

lemma cuts_block (h : limit ≤ limit') (type : Nat) (s : Bits) (out : Output) :
    Cuts limit (block limit type s out) (block limit' type s out) := by
  rw [block.eq_def, block.eq_def limit']
  split
  · exact cuts_refl limit _
  · exact cuts_symbols fixedCodes h _ s out
  · cases givenCodes s with
    | error e => exact cuts_refl limit _
    | ok given => exact cuts_symbols given.1 h _ given.2 out
  · exact cuts_refl limit _

lemma cuts_blocks (h : limit ≤ limit') (fuel : Nat) (s : Bits) (out : Output) :
    Cuts limit (.error (blocks limit fuel s out)) (.error (blocks limit' fuel s out)) := by
  induction fuel generalizing s out with
  | zero => exact cuts_refl limit _
  | succ fuel ih =>
    have hgrows := extends_blocks limit' (fuel + 1) s out
    by_cases hfull : limit ≤ out.size
    · rw [blocks, if_pos hfull]
      exact .inr ⟨out, rfl, hfull, hgrows⟩
    · rw [blocks, blocks, if_neg hfull, if_neg fun hle => hfull (h.trans hle)]
      cases blockHeader s with
      | error e => exact cuts_refl limit _
      | ok header =>
        obtain ⟨⟨last, type⟩, s⟩ := header
        dsimp only
        obtain hsame | ⟨full, hblock, hlimit, hextends⟩ := cuts_block h type s out
        · rw [hsame]
          cases block limit' type s out with
          | error r => exact cuts_refl limit _
          | ok next =>
            cases last with
            | true => exact cuts_refl limit _
            | false => exact ih next.1 next.2
        · -- the other decoder may go on behind the block
          rw [hblock]
          refine .inr ⟨full, rfl, hlimit, ?_⟩
          cases hblock' : block limit' type s out with
          | error r =>
            rw [hblock'] at hextends
            exact hextends
          | ok next =>
            rw [hblock'] at hextends
            cases last with
            | true => exact hextends
            | false => exact hextends.trans (extends_blocks limit' fuel next.1 next.2)

/-- **Inflating up to two limits.**  What is inflated up to a limit is a front of what is inflated
up to a greater one, and it is the same unless it has reached the limit. -/
theorem inflate_limits (h : limit ≤ limit') (stream : List UInt8) :
    (inflate limit stream).2 <+: (inflate limit' stream).2 ∧
      ((inflate limit stream).1 = .full ∧ limit ≤ (inflate limit stream).2.length ∨
        inflate limit stream = inflate limit' stream) := by
  rw [inflate, inflate]
  obtain hsame | ⟨out, hfull, hlimit, hextends⟩ :=
    cuts_blocks h (8 * stream.length + 1) (Bits.ofBytes stream) #[]
  · rw [Except.error.inj hsame]
    exact ⟨List.prefix_refl _, .inr rfl⟩
  · rw [Except.error.inj hfull]
    exact ⟨hextends, .inl ⟨rfl, hlimit⟩⟩

end FleetAgent.Deflate
