/-
# The length of growing delays

The length of a duration in nanoseconds determines it, and the operations on durations are read
off their lengths: the shorter of two is the minimum, and what would be longer than the longest
duration is cut off there.

A generator of delays that has handed out `k` delays since its last reset hands out the least
delay times `2 ^ k` next, or the greatest delay if that is shorter (`Backoff.Stands`).  The
doubling that is cut off changes nothing about this, since the greatest delay is a duration.
-/
import FleetAgent.Time.Backoff
import Mathlib.Tactic.Common
import Mathlib.Algebra.Order.Group.Nat

namespace FleetAgent.Time

/-! ## Lengths -/

namespace Duration

lemma toNanos_le_longest (d : Duration) : d.toNanos ≤ longest.toNanos := by
  have hsecs := d.secs_lt
  have hnanos := d.nanos_lt
  simp only [toNanos, longest, nanosPerSecond, Numeral.unsigned64End] at *
  omega

lemma toNanos_ofParts (secs nanos : Nat) :
    (ofParts secs nanos).toNanos = min (secs * nanosPerSecond + nanos) longest.toNanos := by
  by_cases hfits : secs + nanos / nanosPerSecond < Numeral.unsigned64End
  · rw [ofParts, dif_pos hfits]
    simp only [toNanos, longest, nanosPerSecond, Numeral.unsigned64End] at hfits ⊢
    omega
  · rw [ofParts, dif_neg hfits]
    simp only [toNanos, longest, nanosPerSecond, Numeral.unsigned64End] at hfits ⊢
    omega

lemma toNanos_shorter (a b : Duration) : (a.shorter b).toNanos = min a.toNanos b.toNanos := by
  have ha := a.nanos_lt
  have hb := b.nanos_lt
  rw [shorter]
  split <;> simp only [toNanos, nanosPerSecond] at * <;> omega

lemma toNanos_double (d : Duration) : d.double.toNanos = min (2 * d.toNanos) longest.toNanos := by
  rw [double, toNanos_ofParts, Nat.mul_assoc, ← Nat.mul_add]
  rfl

/-- A number of milliseconds of 64 bits is a duration. -/
lemma toNanos_ofMillis {ms : Nat} (h : ms < Numeral.unsigned64End) :
    (ofMillis ms).toNanos = ms * 1000000 := by
  rw [ofMillis, toNanos_ofParts]
  simp only [toNanos, longest, nanosPerSecond, Numeral.unsigned64End] at *
  omega

/-- The full milliseconds of a duration are those of its length. -/
lemma toMillis_eq (d : Duration) : d.toMillis = d.toNanos / 1000000 := by
  simp only [toMillis, toNanos, nanosPerSecond]
  omega

end Duration

/-! ## Delays -/

namespace Backoff

/-- The generator has handed out `k` delays since its last reset.  `least` and `greatest` are the
lengths of the delays that it has been made with. -/
structure Stands (least greatest k : Nat) (b : Backoff) : Prop where
  current : b.current.toNanos = min (least * 2 ^ k) greatest
  initial : b.initial.toNanos = min least greatest
  greatest : b.greatest.toNanos = greatest

variable {least greatest k : Nat} {b : Backoff}

lemma stands_ofBounds (least greatest : Duration) :
    (ofBounds least greatest).Stands least.toNanos greatest.toNanos 0 where
  current := by rw [ofBounds, Duration.toNanos_shorter, Nat.pow_zero, Nat.mul_one]
  initial := Duration.toNanos_shorter least greatest
  greatest := rfl

lemma Stands.next (h : b.Stands least greatest k) : b.next.2.Stands least greatest (k + 1) where
  current := by
    have hgreatest : greatest ≤ Duration.longest.toNanos :=
      h.greatest ▸ b.greatest.toNanos_le_longest
    rw [Backoff.next, Duration.toNanos_shorter, Duration.toNanos_double, h.current, h.greatest,
      Nat.pow_succ, ← Nat.mul_assoc]
    -- neither cut matters below the greatest delay
    omega
  initial := h.initial
  greatest := h.greatest

lemma Stands.reset (h : b.Stands least greatest k) : b.reset.Stands least greatest 0 where
  current := by rw [Backoff.reset, h.initial, Nat.pow_zero, Nat.mul_one]
  initial := h.initial
  greatest := h.greatest

end Backoff

end FleetAgent.Time
