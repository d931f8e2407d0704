/-
# The delays of a run

A run hands out a delay for each call that asks for one.  The generator before that call is the one
that the calls before it have left (`Backoff.after`), and of these only the calls since the last
reset count (`nextsSince`).  So the delay is the initial one, doubled once for each of them, as far
as the greatest delay allows (`run_delays`).

Doubling multiplies the seconds and the nanoseconds by two and carries a second over.  With every
product and every sum in 64 bits, a product or a sum that does not fit can only be one of seconds,
and there the longest duration takes its place (`Duration.double?_eq`).
-/
import FleetAgent.Proofs.Time.Backoff
import Mathlib.Data.List.DropRight

namespace FleetAgent.Time

/-! ## Doubling in words -/

namespace Duration

/-- A product of 64 bits. -/
def times? (a b : Nat) : Option Nat :=
  if a * b < Numeral.unsigned64End then some (a * b) else none

/-- A sum of 64 bits. -/
def plus? (a b : Nat) : Option Nat :=
  if a + b < Numeral.unsigned64End then some (a + b) else none

/-- The duration of seconds and nanoseconds that need no carry. -/
def ofWords? (secs nanos : Nat) : Option Duration :=
  if h : secs < Numeral.unsigned64End ∧ nanos < nanosPerSecond then
    some ⟨secs, nanos, h.1, h.2⟩
  else none

/-- Twice a duration, with every product and every sum in 64 bits; there is none if one of them
overflows that is not provided for. -/
def double? (d : Duration) : Option Duration := do
  let nanos ← times? 2 d.nanos
  -- an overflow of the seconds is provided for
  match times? 2 d.secs >>= fun secs => plus? secs (nanos / nanosPerSecond) with
  | some secs => ofWords? secs (nanos % nanosPerSecond)
  | none => some longest

lemma times?_nanos (d : Duration) : times? 2 d.nanos = some (2 * d.nanos) := by
  have hnanos := d.nanos_lt
  refine if_pos ?_
  simp only [nanosPerSecond, Numeral.unsigned64End] at *
  omega

/-- The carry is added to seconds that are already too many, or it is seen whether it fits. -/
lemma seconds_eq (d : Duration) (carry : Nat) :
    (times? 2 d.secs >>= fun secs => plus? secs carry)
      = if 2 * d.secs + carry < Numeral.unsigned64End then some (2 * d.secs + carry) else none := by
  by_cases hfits : 2 * d.secs < Numeral.unsigned64End
  · have hsecs : times? 2 d.secs = some (2 * d.secs) := if_pos hfits
    rw [hsecs]
    rfl
  · have hsecs : times? 2 d.secs = none := if_neg hfits
    have hsum : ¬ 2 * d.secs + carry < Numeral.unsigned64End := by omega
    rw [hsecs, if_neg hsum]
    rfl

/-- Doubling never overflows where this is not provided for. -/
lemma double?_eq (d : Duration) : d.double? = some d.double := by
  have hcarry : 2 * d.nanos % nanosPerSecond < nanosPerSecond := Nat.mod_lt _ (by decide)
  rw [double?, times?_nanos, Option.bind_eq_bind, Option.bind_some, seconds_eq, double]
  by_cases hfits : 2 * d.secs + 2 * d.nanos / nanosPerSecond < Numeral.unsigned64End
  · rw [if_pos hfits, ofParts, dif_pos hfits]
    exact dif_pos ⟨hfits, hcarry⟩
  · rw [if_neg hfits, ofParts, dif_neg hfits]

end Duration

/-! ## Runs -/

/-- The number of delays that have been asked for since the last reset. -/
def nextsSince (steps : List BackoffStep) : Nat :=
  (steps.rtakeWhile (· == .next)).length

lemma nextsSince_next (steps : List BackoffStep) :
    nextsSince (steps ++ [.next]) = nextsSince steps + 1 := by
  simp [nextsSince]

lemma nextsSince_reset (steps : List BackoffStep) : nextsSince (steps ++ [.reset]) = 0 := by
  simp [nextsSince]

/-- Without a reset in between, there have been no fewer. -/
lemma nextsSince_le_append (steps : List BackoffStep) {more : List BackoffStep}
    (h : .reset ∉ more) : nextsSince steps ≤ nextsSince (steps ++ more) := by
  induction more using List.reverseRecOn with
  | nil => rw [List.append_nil]
  | append_singleton more s ih =>
    rw [List.mem_append, not_or] at h
    cases s with
    | next =>
      rw [← List.append_assoc, nextsSince_next]
      exact Nat.le_succ_of_le (ih h.1)
    | reset => exact absurd (List.mem_singleton_self _) h.2

namespace Backoff

/-- The generator that a row of steps leaves. -/
def after (b : Backoff) : List BackoffStep → Backoff
  | [] => b
  | .next :: steps => b.next.2.after steps
  | .reset :: steps => b.reset.after steps

lemma after_append (b : Backoff) (steps more : List BackoffStep) :
    b.after (steps ++ more) = (b.after steps).after more := by
  induction steps generalizing b with
  | nil => rfl
  | cons s steps ih => cases s <;> exact ih _

lemma length_run (b : Backoff) (steps : List BackoffStep) :
    (b.run steps).length = steps.length := by
  induction steps generalizing b with
  | nil => rfl
  | cons s steps ih => cases s <;> exact congrArg Nat.succ (ih _)

/-- What the generator hands out next is told by the delays since the last reset. -/
lemma stands_after (least greatest : Duration) (steps : List BackoffStep) :
    ((ofBounds least greatest).after steps).Stands least.toNanos greatest.toNanos
      (nextsSince steps) := by
  induction steps using List.reverseRecOn with
  | nil => exact stands_ofBounds least greatest
  | append_singleton steps s ih =>
    rw [after_append]
    cases s with
    | next =>
      rw [nextsSince_next]
      exact ih.next
    | reset =>
      rw [nextsSince_reset]
      exact ih.reset

/-- The delay of a step is that of the generator which the steps before it leave. -/
lemma run_getElem? (b : Backoff) (steps : List BackoffStep) (i : Nat) :
    (b.run steps)[i]? = steps[i]?.map fun
      | .next => some (b.after (steps.take i)).current
      | .reset => none := by
  induction steps generalizing b i with
  | nil => rfl
  | cons s steps ih =>
    cases i with
    | zero => cases s <;> rfl
    | succ i => cases s <;> exact ih _ i

/-! ## Main result -/

variable {steps : List BackoffStep} {i j : Nat} {d d' : Duration}

/-- A delay that has been handed out, by the delays asked for since the last reset before it. -/
lemma toNanos_of_run (least greatest : Duration)
    (h : ((ofBounds least greatest).run steps)[i]? = some (some d)) :
    d.toNanos = min (least.toNanos * 2 ^ nextsSince (steps.take i)) greatest.toNanos := by
  rw [run_getElem?, Option.map_eq_some_iff] at h
  obtain ⟨s, -, hs⟩ := h
  cases s with
  | next =>
    obtain rfl := Option.some.inj hs
    exact (stands_after least greatest (steps.take i)).current
  | reset => exact nomatch hs

/-- **Delays double up to the greatest one.**  Whatever is asked of a generator of delays, every
call of `next` gets a delay: the initial one times `2 ^ k`, where `k` delays have been asked for
since the start or the last reset, or the greatest delay if that is shorter.  So no delay is longer
than the greatest one, and without a reset in between a later delay is not shorter.

Doubling a duration in words of 64 bits overflows only where this is provided for, and gives twice
the duration, or the longest duration if that is shorter. -/
theorem run_delays (least greatest : Duration) (steps : List BackoffStep) :
    let delays := (ofBounds least greatest).run steps
    delays.length = steps.length ∧
      (∀ i : Nat, steps[i]? = some .reset → delays[i]? = some none) ∧
      (∀ i : Nat, steps[i]? = some .next → ∃ d, delays[i]? = some (some d) ∧
        d.toNanos = min (least.toNanos * 2 ^ nextsSince (steps.take i)) greatest.toNanos ∧
        d.toNanos ≤ greatest.toNanos) ∧
      (∀ i j d d', i ≤ j → delays[i]? = some (some d) → delays[j]? = some (some d') →
        .reset ∉ (steps.take j).drop i → d.toNanos ≤ d'.toNanos) ∧
      ∀ d : Duration, d.double? = some d.double ∧
        d.double.toNanos = min (2 * d.toNanos) Duration.longest.toNanos := by
  intro delays
  refine ⟨length_run _ steps, fun i hi => ?_, fun i hi => ?_, fun i j d d' hle hd hd' hreset => ?_,
    fun d => ⟨d.double?_eq, d.toNanos_double⟩⟩
  · rw [run_getElem?, hi]
    rfl
  · have hd : delays[i]?
        = some (some ((ofBounds least greatest).after (steps.take i)).current) := by
      rw [run_getElem?, hi]
      rfl
    have hlength := toNanos_of_run least greatest hd
    exact ⟨_, hd, hlength, hlength.trans_le (Nat.min_le_right _ _)⟩
  · have hsplit : steps.take i ++ (steps.take j).drop i = steps.take j := by
      have hcut := List.take_append_drop i (steps.take j)
      rwa [List.take_take, Nat.min_eq_left hle] at hcut
    have hcount : nextsSince (steps.take i) ≤ nextsSince (steps.take j) := by
      rw [← hsplit]
      exact nextsSince_le_append _ hreset
    rw [toNanos_of_run least greatest hd, toNanos_of_run least greatest hd']
    have hpower := Nat.mul_le_mul_left least.toNanos
      (Nat.pow_le_pow_right Nat.zero_lt_two hcount)
    exact min_le_min hpower le_rfl

/-- Half of the longest duration is doubled with a carry, and doubled again it is cut off, until a
reset. -/
theorem run_delays_sample :
    let half := Duration.ofParts 9223372036854775807 999999999
    let delays := (ofBounds half .longest).run [.next, .next, .next, .reset, .next]
    delays[3]? = some none ∧
      ∃ d₁ d₂ d₄, delays[1]? = some (some d₁) ∧ d₁.toNanos = Duration.longest.toNanos - 1 ∧
        delays[2]? = some (some d₂) ∧ d₂.toNanos = Duration.longest.toNanos ∧
        d₁.toNanos ≤ d₂.toNanos ∧ delays[4]? = some (some d₄) ∧ d₄.toNanos = half.toNanos := by
  intro half delays
  obtain ⟨-, hreset, hnext, hgrow, -⟩ :=
    run_delays half .longest [.next, .next, .next, .reset, .next]
  obtain ⟨d₁, hd₁, hlength₁, -⟩ := hnext 1 rfl
  obtain ⟨d₂, hd₂, hlength₂, -⟩ := hnext 2 rfl
  obtain ⟨d₄, hd₄, hlength₄, -⟩ := hnext 4 rfl
  have hle : d₁.toNanos ≤ d₂.toNanos := hgrow 1 2 d₁ d₂ (by decide) hd₁ hd₂ (by decide)
  exact ⟨hreset 3 rfl, d₁, d₂, d₄, hd₁, hlength₁.trans (by decide), hd₂,
    hlength₂.trans (by decide), hle, hd₄, hlength₄.trans (by decide)⟩

end Backoff

end FleetAgent.Time
