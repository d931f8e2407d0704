/-
# When the channel is dialled

Whatever the attempts come to, the keeper of the channel goes through each of them in the same
way: it waits, dials, talks if the connection is established, and waits again.  So a moment of a
row of attempts is given by the attempts that are over and by how far the next one has come
(`Moment`).

While the keeper waits, the delay depends on the number of attempts that count towards it
(`attemptsSince`): all of them, or those since the last one that has established a connection.
An attempt takes one state of this kind to the next (`Keeper.Waits.run_events`), and the run of a
row of attempts follows by induction from its end.
-/
import FleetAgent.Channel.Reconnect
import FleetAgent.Proofs.Channel.Connection
import FleetAgent.Proofs.Time.Backoff
import Mathlib.Data.List.DropRight

namespace FleetAgent.Channel

/-- The number of attempts that count towards the next delay. -/
def attemptsSince (reset : Bool) (dials : List Dial) : Nat :=
  if reset then (dials.rtakeWhile fun d => d.status != .connected).length else dials.length

lemma attemptsSince_concat (reset : Bool) (dials : List Dial) (d : Dial) :
    attemptsSince reset (dials ++ [d])
      = if reset = true ∧ d.status = .connected then 0 else attemptsSince reset dials + 1 := by
  cases reset with
  | false => simp [attemptsSince]
  | true =>
    by_cases hstatus : d.status = .connected
    · simp [attemptsSince, hstatus]
    · simp [attemptsSince, hstatus]

/-! ## Moments -/

/-- The moments of a row of attempts, each given by the events before it. -/
inductive Moment (dials : List Dial) : List Keeper.Event → Prop where
  | waiting (done : List Dial) (h : done <+: dials) : Moment dials (done.flatMap Dial.events)
  | dialling (done : List Dial) (d : Dial) (h : done ++ [d] <+: dials) :
      Moment dials (done.flatMap Dial.events ++ [.woke])
  | talking (done : List Dial) (d : Dial) (h : done ++ [d] <+: dials)
      (hstatus : d.status = .connected) :
      Moment dials (done.flatMap Dial.events ++ [.woke, .upgraded])

lemma Moment.cons {dials : List Dial} {past : List Keeper.Event} (h : Moment dials past)
    (d : Dial) : Moment (d :: dials) (d.events ++ past) := by
  cases h with
  | waiting done h => exact .waiting (d :: done) ((List.prefix_cons_inj d).mpr h)
  | dialling done e h =>
    rw [← List.append_assoc, ← List.flatMap_cons]
    exact .dialling (d :: done) e ((List.prefix_cons_inj d).mpr h)
  | talking done e h hstatus =>
    rw [← List.append_assoc, ← List.flatMap_cons]
    exact .talking (d :: done) e ((List.prefix_cons_inj d).mpr h) hstatus

/-- How far an attempt has come. -/
lemma eq_of_isPrefix_events {d : Dial} {past : List Keeper.Event} (h : past <+: d.events) :
    past = [] ∨ past = [.woke] ∨ (d.status = .connected ∧ past = [.woke, .upgraded])
      ∨ past = d.events := by
  rw [Dial.events, List.prefix_cons_iff] at h
  obtain rfl | ⟨past, rfl, h⟩ := h
  · exact .inl rfl
  by_cases hstatus : d.status = .connected
  · rw [if_pos hstatus, List.cons_append, List.nil_append, List.prefix_cons_iff] at h
    obtain rfl | ⟨past, rfl, h⟩ := h
    · exact .inr (.inl rfl)
    rw [List.prefix_cons_iff] at h
    obtain rfl | ⟨past, rfl, h⟩ := h
    · exact .inr (.inr (.inl ⟨hstatus, rfl⟩))
    · rw [List.prefix_nil.mp h, Dial.events, if_pos hstatus]
      exact .inr (.inr (.inr rfl))
  · rw [if_neg hstatus, List.nil_append, List.prefix_cons_iff] at h
    obtain rfl | ⟨past, rfl, h⟩ := h
    · exact .inr (.inl rfl)
    · rw [List.prefix_nil.mp h, Dial.events, if_neg hstatus]
      exact .inr (.inr (.inr rfl))

/-- Nothing else happens in a row of attempts. -/
lemma moment_of_isPrefix {dials : List Dial} {past : List Keeper.Event}
    (h : past <+: dials.flatMap Dial.events) : Moment dials past := by
  induction dials generalizing past with
  | nil =>
    rw [List.prefix_nil.mp h]
    exact .waiting [] (List.prefix_refl [])
  | cons d dials ih =>
    obtain ⟨later, hlater⟩ := h
    rw [List.flatMap_cons] at hlater
    have hone : [] ++ [d] <+: d :: dials := ⟨dials, rfl⟩
    rcases List.append_eq_append_iff.mp hlater with ⟨rest, hevents, -⟩ | ⟨past, rfl, hrest⟩
    · -- the moment is one of the first attempt
      obtain rfl | rfl | ⟨hstatus, rfl⟩ | rfl := eq_of_isPrefix_events ⟨rest, hevents.symm⟩
      · exact .waiting [] List.nil_prefix
      · exact .dialling [] d hone
      · exact .talking [] d hone hstatus
      · simpa using (Moment.waiting [] List.nil_prefix : Moment dials []).cons d
    · exact (ih ⟨later, hrest.symm⟩).cons d

/-! ## Runs -/

namespace Keeper

/-- The keeper waits before an attempt, when `done` attempts are over and `since` of them count
towards the delay. -/
structure Waits (least greatest since done : Nat) (k : Keeper) : Prop where
  activity : ∃ delay, k.activity = .waiting delay ∧ delay.toNanos = min (least * 2 ^ since) greatest
  status : k.status = .disconnected
  attempts : k.attempts = done
  backoff : k.backoff.Stands least greatest (since + 1)

variable {least greatest since done : Nat} {k : Keeper}

lemma waits_wait {b : Time.Backoff} (h : b.Stands least greatest since) (now done : Nat) :
    (wait b now done).Waits least greatest since done where
  activity := ⟨b.current, rfl, h.current⟩
  status := rfl
  attempts := rfl
  backoff := h.next

lemma run_append (reset : Bool) (k : Keeper) (es later : List Event) :
    k.run reset (es ++ later) = (k.run reset es).run reset later :=
  List.foldl_append

/-- A wait ends, and an attempt begins. -/
lemma Waits.run_woke (h : k.Waits least greatest since done) (reset : Bool) :
    (k.run reset [.woke]).activity = .dialling ∧ (k.run reset [.woke]).status = .connecting ∧
      (k.run reset [.woke]).attempts = done + 1 := by
  obtain ⟨delay, hactivity, -⟩ := h.activity
  simp only [run, List.foldl_cons, List.foldl_nil, step, hactivity, h.attempts, and_self]

/-- The connection of an attempt is established. -/
lemma Waits.run_upgraded (h : k.Waits least greatest since done) (reset : Bool) :
    (k.run reset [.woke, .upgraded]).activity = .talking ∧
      (k.run reset [.woke, .upgraded]).status = .connected ∧
      (k.run reset [.woke, .upgraded]).attempts = done + 1 := by
  obtain ⟨delay, hactivity, -⟩ := h.activity
  simp only [run, List.foldl_cons, List.foldl_nil, step, hactivity, h.attempts, and_self]

/-- An attempt of a keeper that waits ends in a wait. -/
lemma run_events_eq {delay : Time.Duration} (h : k.activity = .waiting delay) (reset : Bool)
    (d : Dial) :
    k.run reset d.events
      = wait (if reset && d.result.isOk then k.backoff.reset else k.backoff)
          (k.now + delay.toMillis + elapsed d.result) (k.attempts + 1) := by
  rw [Dial.events]
  split <;> simp only [run, List.foldl_cons, List.cons_append, List.nil_append, List.foldl_nil,
    step, h]

/-- An attempt takes one wait to the next, and an established connection counts as a reset. -/
lemma Waits.run_events (h : k.Waits least greatest since done) (reset : Bool) {d : Dial}
    (hd : d.status = .connected ↔ ∃ s, d.result = .ok s) :
    (k.run reset d.events).Waits least greatest
      (if reset = true ∧ d.status = .connected then 0 else since + 1) (done + 1) := by
  obtain ⟨delay, hactivity, -⟩ := h.activity
  have hreset : (reset && d.result.isOk) = true ↔ reset = true ∧ d.status = .connected := by
    rw [hd, Bool.and_eq_true]
    cases d.result <;> simp [Except.isOk, Except.toBool]
  rw [run_events_eq hactivity, h.attempts]
  by_cases hconnected : reset = true ∧ d.status = .connected
  · rw [if_pos hconnected, if_pos (hreset.mpr hconnected)]
    exact waits_wait h.backoff.reset _ _
  · rw [if_neg hconnected, if_neg (mt hreset.mp hconnected)]
    exact waits_wait h.backoff _ _

/-- After a row of attempts the keeper waits for the next one. -/
lemma waits_run {minMs maxMs : Nat} (hmin : minMs < Numeral.unsigned64End)
    (hmax : maxMs < Numeral.unsigned64End) (reset : Bool) {dials : List Dial}
    (hdials : ∀ d ∈ dials, d.status = .connected ↔ ∃ s, d.result = .ok s) :
    ((initial minMs maxMs).run reset (dials.flatMap Dial.events)).Waits (minMs * 1000000)
      (maxMs * 1000000) (attemptsSince reset dials) dials.length := by
  induction dials using List.reverseRecOn with
  | nil =>
    have hstands := Time.Backoff.stands_ofBounds (.ofMillis minMs) (.ofMillis maxMs)
    rw [Time.Duration.toNanos_ofMillis hmin, Time.Duration.toNanos_ofMillis hmax] at hstands
    have hsince : attemptsSince reset [] = 0 := by cases reset <;> rfl
    rw [hsince]
    exact waits_wait hstands 0 0
  | append_singleton dials d ih =>
    have hwaits := ih fun e he => hdials e (List.mem_append_left _ he)
    rw [List.flatMap_append, List.flatMap_singleton, run_append, List.length_append,
      attemptsSince_concat]
    exact hwaits.run_events reset (hdials d (List.mem_append_right _ (List.mem_singleton_self d)))

/-- The wakings in a row of attempts are as many as the attempts. -/
lemma countP_flatMap_events (dials : List Dial) :
    (dials.flatMap Dial.events).countP Event.isWaking = dials.length := by
  induction dials with
  | nil => rfl
  | cons d dials ih =>
    have hone : d.events.countP Event.isWaking = 1 := by
      rw [Dial.events]
      split <;> rfl
    rw [List.flatMap_cons, List.countP_append, ih, hone, Nat.add_comm, List.length_cons]

end Keeper

/-- **When the channel is dialled.**  Whatever the attempts come to, the wait before each of them
lasts exactly `minMs * 2 ^ j` milliseconds, or `maxMs` if that is less, where `j` is the number of
earlier attempts or, if an established connection resets the delay, of those since the last one
that has established a connection.  At every moment, the count of the attempts is the number of
waits that are over, the channel is disconnected if the keeper waits, and it is connected exactly
between the upgrade and the end of an attempt that establishes a connection. -/
theorem run_dials (url : String) (pingSecs : Nat)
    (meetings : List (Except Auth.TokenError String × Peer)) (reset : Bool) {minMs maxMs : Nat}
    (hmin : minMs < Numeral.unsigned64End) (hmax : maxMs < Numeral.unsigned64End) :
    let dials := meetings.map fun m => connect url pingSecs m.1 m.2
    let keeper := (Keeper.initial minMs maxMs).run reset
    (∀ done, done <+: dials → ∃ delay,
      (keeper (done.flatMap Dial.events)).activity = .waiting delay ∧
        delay.toNanos = min (minMs * 2 ^ attemptsSince reset done) maxMs * 1000000) ∧
      ∀ past, past <+: dials.flatMap Dial.events →
        (keeper past).attempts = past.countP Keeper.Event.isWaking ∧
          (∀ delay, (keeper past).activity = .waiting delay → (keeper past).status = .disconnected ∧
            ∃ done, done <+: dials ∧ past = done.flatMap Dial.events) ∧
          ((keeper past).status = .connected ↔ ∃ done d, done ++ [d] <+: dials ∧
            (∃ s, d.result = .ok s) ∧ past = done.flatMap Dial.events ++ [.woke, .upgraded]) := by
  intro dials keeper
  have hdials : ∀ d ∈ dials, d.status = .connected ↔ ∃ s, d.result = .ok s := by
    intro d hd
    obtain ⟨m, -, rfl⟩ := List.mem_map.mp hd
    exact status_connect_iff url pingSecs m.1 m.2
  have hwaits {done : List Dial} (h : done <+: dials) :=
    Keeper.waits_run hmin hmax reset fun d hd => hdials d (h.subset hd)
  have hlater {done : List Dial} {d : Dial} (h : done ++ [d] <+: dials) : done <+: dials :=
    (List.prefix_append done [d]).trans h
  have happend (done : List Dial) (es : List Keeper.Event) :
      keeper (done.flatMap Dial.events ++ es) = (keeper (done.flatMap Dial.events)).run reset es :=
    Keeper.run_append reset _ _ es
  refine ⟨fun done h => ?_, fun past hpast => ?_⟩
  · obtain ⟨delay, hactivity, hdelay⟩ := (hwaits h).activity
    refine ⟨delay, hactivity, ?_⟩
    rw [hdelay, Nat.mul_right_comm, Nat.mul_min_mul_right]
  have hmoment := moment_of_isPrefix hpast
  refine ⟨?_, fun delay hactivity => ?_, fun hstatus => ?_, ?_⟩
  · cases hmoment with
    | waiting done h => rw [(hwaits h).attempts, Keeper.countP_flatMap_events]
    | dialling done d h =>
      rw [happend, ((hwaits (hlater h)).run_woke reset).2.2, List.countP_append,
        Keeper.countP_flatMap_events]
      rfl
    | talking done d h hstatus =>
      rw [happend, ((hwaits (hlater h)).run_upgraded reset).2.2, List.countP_append,
        Keeper.countP_flatMap_events]
      rfl
  · cases hmoment with
    | waiting done h => exact ⟨(hwaits h).status, done, h, rfl⟩
    | dialling done d h =>
      rw [happend, ((hwaits (hlater h)).run_woke reset).1] at hactivity
      cases hactivity
    | talking done d h hstatus =>
      rw [happend, ((hwaits (hlater h)).run_upgraded reset).1] at hactivity
      cases hactivity
  · cases hmoment with
    | waiting done h => exact nomatch (hwaits h).status.symm.trans hstatus
    | dialling done d h =>
      rw [happend, ((hwaits (hlater h)).run_woke reset).2.1] at hstatus
      cases hstatus
    | talking done d h hconnected =>
      have hd : d ∈ dials := h.subset (List.mem_append_right _ (List.mem_singleton_self d))
      exact ⟨done, d, h, (hdials d hd).mp hconnected, rfl⟩
  · rintro ⟨done, d, h, -, rfl⟩
    rw [happend]
    exact ((hwaits (hlater h)).run_upgraded reset).2.1

/-- After an attempt that nobody answers, one without a token, a connection that is lost, and one
more attempt that nobody answers, the wait is twice the least delay. -/
theorem run_dials_sample :
    let meetings := [(.ok "tok", .unreachable), (.error .unauthorized, .vanished),
      (.ok "tok", .vanished), (.ok "tok", .unreachable)]
    let dials := meetings.map fun m => connect "ws://fleet:8080/api/v1/devices/ws" 30 m.1 m.2
    let k := (Keeper.initial 1000 120000).run true (dials.flatMap Dial.events)
    ∃ delay, k.activity = .waiting delay ∧ delay.toNanos = 2000 * 1000000 := by
  intro meetings dials k
  obtain ⟨hdelays, -⟩ := run_dials "ws://fleet:8080/api/v1/devices/ws" 30 meetings true
    (show 1000 < Numeral.unsigned64End by decide) (show 120000 < Numeral.unsigned64End by decide)
  obtain ⟨delay, hactivity, hdelay⟩ := hdelays dials (List.prefix_refl dials)
  have hsince : attemptsSince true dials = 1 := by decide +kernel
  rw [hsince] at hdelay
  exact ⟨delay, hactivity, hdelay⟩

end FleetAgent.Channel
