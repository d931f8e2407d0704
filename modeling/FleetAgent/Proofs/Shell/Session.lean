/-
# The end of a session

Whatever happens, only the first call that closes a session kills its processes and cancels its
token (`Logged`), every flow ends once, and the gate counts the flows that have not ended
(`Sound`).  Whoever waits at the gate cannot pass it before the last flow has ended, and cannot
sleep for ever after that: as long as releases are missing, no notice is due; when none are, a
notice is still to be given, or is kept for the waiter, or is not needed (`Waits`).  What the
waiter still has to do then is at most to be given notice, to listen and to look (`Awaits`).

`Move s e s'` lists the ways in which the event `e` takes a session from `s` to `s'`.  Every
step is a move (`step_move`), so what all steps keep is proved by cases on moves.
-/
import FleetAgent.Shell.Session
import Mathlib.Data.List.Basic
import Mathlib.Tactic.Common

namespace FleetAgent.Shell.Session

/-! ## Moves -/

/-- Whether an event is one of the flows. -/
def Event.isFlow : Event → Bool
  | close | cancel | cancelParent | noticed | looked | listened => false
  | _ => true

/-- Whether an event closes the session or cancels a token from outside. -/
def Event.isCall : Event → Bool
  | close | cancel | cancelParent => true
  | _ => false

lemma Event.isCall_of_isFlow {e : Event} (h : e.isFlow = true) : e.isCall = false := by
  cases e with
  | close | cancel | cancelParent => exact nomatch h
  | _ => rfl

/-- The session with other bytes on their way. -/
def transfer (s : Session) (input writing output : List UInt8) (sent : List Channel.Frame) :
    Session :=
  { s with input := input, writing := writing, output := output, sent := sent }

/-- The session after a flow has stopped. -/
def stopped (s : Session) (f : Flow) : Session :=
  { s.close with running := s.running.erase f, leaving := s.leaving ++ [f] }

/-- The session after a flow has taken its permit. -/
def departed (s : Session) (f : Flow) : Session :=
  { s with
    leaving := s.leaving.erase f
    ended := s.ended ++ [f]
    gate := s.gate.decrement.2
    noticing := s.noticing || s.gate.decrement.1 }

/-- The ways in which an event changes a session. -/
inductive Move (s : Session) : Event → Session → Prop where
  /-- At most, bytes move. -/
  | moved (e : Event) (he : e.isFlow = true) (input writing output : List UInt8)
      (sent : List Channel.Frame) : Move s e (s.transfer input writing output sent)
  /-- A flow stops, which closes the session. -/
  | stopped (e : Event) (he : e.isFlow = true) (f : Flow) (hf : f ∈ s.running)
      (input writing output : List UInt8) (sent : List Channel.Frame) :
      Move s e ((s.stopped f).transfer input writing output sent)
  | departed (f : Flow) (hf : f ∈ s.leaving) : Move s (.left f) (s.departed f)
  | noticed (h : s.noticing = true) :
      Move s .noticed { s with gate := s.gate.notify, noticing := false }
  | unnoticed (h : s.noticing = false) : Move s .noticed s
  | close : Move s .close s.close
  | cancel : Move s .cancel { s with closer := s.closer.cancel }
  | cancelParent : Move s .cancelParent { s with closer := s.closer.cancelParent }
  | looked : Move s .looked { s with gate := s.gate.lookAll }
  | listened : Move s .listened { s with gate := s.gate.listenAll }

section

variable {s : Session} {e : Event}

lemma idle_move (he : e.isFlow = true) : Move s e s :=
  .moved e he s.input s.writing s.output s.sent

lemma finish_move (he : e.isFlow = true) (f : Flow) (input writing output : List UInt8)
    (sent : List Channel.Frame) : Move s e ((s.transfer input writing output sent).finish f) := by
  have hcontains : (s.transfer input writing output sent).running.contains f = true ↔
      f ∈ s.running := List.contains_iff_mem
  by_cases hf : f ∈ s.running
  · rw [finish, if_pos (hcontains.mpr hf)]
    exact .stopped e he f hf input writing output sent
  · rw [finish, if_neg (mt hcontains.mp hf)]
    exact .moved e he input writing output sent

/-- A flow that finishes while nothing else happens. -/
lemma plain_finish_move (he : e.isFlow = true) (f : Flow) : Move s e (s.finish f) :=
  finish_move he f s.input s.writing s.output s.sent

lemma stopPump_move (he : e.isFlow = true) (output : List UInt8) :
    Move s e ({ s with output := output }.stopPump) :=
  finish_move he .pump s.input s.writing output _

lemma listen_move (he : e.isFlow = true) (i : Channel.Inbound) : Move s e (s.listen i) := by
  cases i with
  | frame f =>
    cases f with
    | binary bytes => exact .moved e he s.input _ s.output s.sent
    | close f => exact plain_finish_move he .listener
    | text t | ping | pong => exact idle_move he
  | failed | ended | silence => exact plain_finish_move he .listener

end

/-- **Every step is a move.** -/
theorem step_move (s : Session) (e : Event) : Move s e (s.step e) := by
  cases e with
  | received i =>
    rw [step]
    split
    · exact listen_move rfl i
    · exact idle_move rfl
  | wrote n =>
    rw [step]
    split
    · exact .moved _ rfl _ _ s.output s.sent
    · exact idle_move rfl
  | writeFailed =>
    rw [step]
    split
    · exact plain_finish_move rfl .listener
    · exact idle_move rfl
  | listenerCancelled =>
    rw [step]
    split
    · exact plain_finish_move rfl .listener
    · exact idle_move rfl
  | read bytes =>
    rw [step]
    split
    · split
      · exact stopPump_move rfl s.output
      · split
        · exact idle_move rfl
        · exact .moved _ rfl s.input s.writing _ _
    · exact idle_move rfl
  | sendFailed bytes =>
    rw [step]
    split
    · exact stopPump_move rfl _
    · exact idle_move rfl
  | readFailed =>
    rw [step]
    split
    · exact stopPump_move rfl s.output
    · exact idle_move rfl
  | drained =>
    rw [step]
    split
    · exact stopPump_move rfl s.output
    · exact idle_move rfl
  | exited => exact plain_finish_move rfl .waiter
  | crashed f => exact plain_finish_move rfl f
  | left f =>
    rw [step]
    by_cases hf : f ∈ s.leaving
    · rw [leave, if_pos (List.contains_iff_mem.mpr hf)]
      exact .departed f hf
    · rw [leave, if_neg (mt List.contains_iff_mem.mp hf)]
      exact idle_move rfl
  | noticed =>
    cases hnoticing : s.noticing with
    | true =>
      rw [step, if_pos hnoticing]
      exact .noticed hnoticing
    | false =>
      rw [step, if_neg (by simp [hnoticing])]
      exact .unnoticed hnoticing
  | close => exact .close
  | cancel => exact .cancel
  | cancelParent => exact .cancelParent
  | looked => exact .looked
  | listened => exact .listened

/-! ## Closing -/

/-- The closer agrees with the results of the calls that close the session: only the first of
them is true, and it alone has killed the processes. -/
structure Logged (c : Closer) (results : List Bool) : Prop where
  first : results = [] ∨ ∃ later, results = true :: List.replicate later false
  closed_iff : c.closed = true ↔ results ≠ []
  kills : c.kills = results.count true

/-- Closing a closed session again does nothing. -/
lemma close_of_closed {c : Closer} (h : c.closed = true) : c.close = (false, c) := by
  rw [Closer.close, if_pos h]

namespace Logged

variable {c : Closer} {results : List Bool}

lemma initial : Logged .initial [] := ⟨.inl rfl, by decide, rfl⟩

lemma close (h : Logged c results) : Logged c.close.2 (results ++ [c.close.1]) := by
  obtain rfl | ⟨later, rfl⟩ := h.first
  · have hopen : ¬c.closed = true := fun hclosed => h.closed_iff.mp hclosed rfl
    rw [Closer.close, if_neg hopen]
    exact ⟨.inr ⟨0, rfl⟩, by simp, congrArg (· + 1) h.kills⟩
  · have hclosed : c.closed = true := h.closed_iff.mpr nofun
    rw [close_of_closed hclosed]
    refine ⟨.inr ⟨later + 1, ?_⟩, iff_of_true hclosed nofun, ?_⟩
    · rw [List.replicate_succ', List.cons_append]
    · simpa using h.kills

end Logged

lemma parent_close (c : Closer) : c.close.2.parent = c.parent := by
  unfold Closer.close
  split <;> rfl

lemma own_close {c : Closer} (h : c.closed = true → c.own = true) : c.close.2.own = true := by
  unfold Closer.close
  split
  · next hclosed => exact h hclosed
  · rfl

/-! ## Waiting -/

/-- What one waiter may be doing at the gate, and whether a notice is still to be given. -/
inductive Waits : Gate → Bool → Prop where
  /-- Releases are missing: the waiter does not pass, and no notice is due. -/
  | shut (n : Nat) (w : Waiter) (hw : w ≠ .finished) : Waits ⟨n + 1, false, [w]⟩ false
  /-- The last release has been made, and notice of it is still to be given. -/
  | opened (w : Waiter) : Waits ⟨0, false, [w]⟩ true
  /-- Notice has been given: the waiter is awake, and if it goes on to listen it hears it. -/
  | noticed (kept : Bool) (w : Waiter) (hawake : w ≠ .asleep)
      (hkept : w = .listening → kept = true) : Waits ⟨0, kept, [w]⟩ false

namespace Waits

variable {g : Gate} {noticing : Bool}

lemma decrement (h : Waits g noticing) (hmissing : 0 < g.remaining) :
    Waits g.decrement.2 (noticing || g.decrement.1) := by
  cases h with
  | shut n w hw =>
    cases n with
    | zero => exact .opened w
    | succ n => exact .shut n w hw
  | opened w => exact absurd hmissing (Nat.lt_irrefl 0)
  | noticed kept w hawake hkept => exact absurd hmissing (Nat.lt_irrefl 0)

lemma notify (h : Waits g true) : Waits g.notify false := by
  cases h with
  | opened w =>
    cases w with
    | asleep => exact .noticed false .looking nofun nofun
    | looking => exact .noticed true .looking nofun nofun
    | listening => exact .noticed true .listening nofun fun _ => rfl
    | finished => exact .noticed true .finished nofun nofun

lemma look (h : Waits g noticing) : Waits g.lookAll noticing := by
  cases h with
  | shut n w hw =>
    cases w with
    | looking => exact .shut n .listening nofun
    | listening => exact .shut n .listening nofun
    | asleep => exact .shut n .asleep nofun
    | finished => exact absurd rfl hw
  | opened w => exact .opened _
  | noticed kept w hawake hkept =>
    cases w with
    | looking => exact .noticed kept .finished nofun nofun
    | listening => exact .noticed kept .listening nofun hkept
    | asleep => exact absurd rfl hawake
    | finished => exact .noticed kept .finished nofun nofun

lemma listen (h : Waits g noticing) : Waits g.listenAll noticing := by
  cases h with
  | shut n w hw =>
    cases w with
    | looking => exact .shut n .looking nofun
    | listening => exact .shut n .asleep nofun
    | asleep => exact .shut n .asleep nofun
    | finished => exact absurd rfl hw
  | opened w => cases w <;> exact .opened _
  | noticed kept w hawake hkept =>
    cases w with
    | looking => exact .noticed kept .looking nofun nofun
    | listening =>
      obtain rfl := hkept rfl
      exact .noticed false .looking nofun nofun
    | asleep => exact absurd rfl hawake
    | finished => exact .noticed kept .finished nofun nofun

/-- Nobody passes while releases are missing. -/
lemma remaining_eq_zero (h : Waits g noticing) (hover : g.waiters.all (· == .finished) = true) :
    g.remaining = 0 := by
  cases h with
  | shut n w hw => exact absurd (by simpa using hover) hw
  | opened w => rfl
  | noticed kept w hawake hkept => rfl

end Waits

lemma remaining_decrement (g : Gate) : g.decrement.2.remaining = g.remaining - 1 := by
  unfold Gate.decrement
  split
  · next hzero => rw [hzero]
  · next n hsucc => rw [hsucc]; rfl

lemma remaining_notify (g : Gate) : g.notify.remaining = g.remaining := by
  unfold Gate.notify
  split <;> rfl

/-! ## Runs -/

/-- What is known of a session after a row of events. -/
structure Sound (events : List Event) (s : Session) : Prop where
  /-- Every flow is running, or leaving, or has ended. -/
  flows : (s.running ++ s.leaving ++ s.ended).Perm [.listener, .pump, .waiter]
  logged : Logged s.closer s.closings
  /-- Every flow that does not run any more has closed the session once. -/
  closings : s.closings.length = events.count .close + (s.leaving.length + s.ended.length)
  own_iff : s.closer.own = true ↔ s.closings ≠ [] ∨ .cancel ∈ events
  parent_iff : s.closer.parent = true ↔ .cancelParent ∈ events
  remaining : s.gate.remaining = s.running.length + s.leaving.length
  waits : Waits s.gate s.noticing

namespace Sound

variable {events : List Event} {s s' : Session} {e : Event}

lemma initial : Sound [] .initial where
  flows := .refl _
  logged := .initial
  closings := rfl
  own_iff := by decide
  parent_iff := by decide
  remaining := rfl
  waits := .shut 2 .looking nofun

lemma length_flows (h : Sound events s) :
    s.running.length + s.leaving.length + s.ended.length = 3 := by
  simpa [Nat.add_assoc] using h.flows.length_eq

/-- When all three flows have ended, the gate is open. -/
lemma of_ended (h : Sound events s) (hended : s.ended.length = 3) :
    s.running = [] ∧ s.leaving = [] ∧ s.gate.remaining = 0 := by
  have hlength := h.length_flows
  refine ⟨List.eq_nil_of_length_eq_zero (by omega), List.eq_nil_of_length_eq_zero (by omega), ?_⟩
  rw [h.remaining]
  omega

/-- Events that neither close nor cancel do not count as such. -/
lemma skip (h : Sound events s) (he : e.isCall = false) : Sound (events ++ [e]) s := by
  have hclose : e ≠ .close := by rintro rfl; exact nomatch he
  have hcancel : e ≠ .cancel := by rintro rfl; exact nomatch he
  have hparent : e ≠ .cancelParent := by rintro rfl; exact nomatch he
  refine { h with closings := ?_, own_iff := ?_, parent_iff := ?_ }
  · rw [h.closings, List.count_append, List.count_eq_zero_of_not_mem (l := [e])]
    · rfl
    · simpa using hclose.symm
  · rw [h.own_iff]
    simp [hcancel.symm]
  · rw [h.parent_iff]
    simp [hparent.symm]

lemma own_of_closed (h : Sound events s) (hclosed : s.closer.closed = true) :
    s.closer.own = true :=
  h.own_iff.mpr (.inl (h.logged.closed_iff.mp hclosed))

lemma close (h : Sound events s) : Sound (events ++ [.close]) s.close where
  flows := h.flows
  logged := h.logged.close
  closings := by
    simp only [Session.close, List.length_append, List.length_singleton, List.count_append,
      List.count_singleton_self]
    rw [h.closings]
    omega
  own_iff := iff_of_true (own_close h.own_of_closed) (.inl (by simp [Session.close]))
  parent_iff := by
    simp [Session.close, parent_close, h.parent_iff]
  remaining := h.remaining
  waits := h.waits

lemma cancel (h : Sound events s) :
    Sound (events ++ [.cancel]) { s with closer := s.closer.cancel } where
  flows := h.flows
  logged := ⟨h.logged.first, h.logged.closed_iff, h.logged.kills⟩
  closings := by simpa using h.closings
  own_iff := iff_of_true rfl (.inr (List.mem_append_right _ (List.mem_singleton_self _)))
  parent_iff := by simpa [Closer.cancel] using h.parent_iff
  remaining := h.remaining
  waits := h.waits

lemma cancelParent (h : Sound events s) :
    Sound (events ++ [.cancelParent]) { s with closer := s.closer.cancelParent } where
  flows := h.flows
  logged := ⟨h.logged.first, h.logged.closed_iff, h.logged.kills⟩
  closings := by simpa using h.closings
  own_iff := by simpa [Closer.cancelParent] using h.own_iff
  parent_iff := iff_of_true rfl (List.mem_append_right _ (List.mem_singleton_self _))
  remaining := h.remaining
  waits := h.waits

lemma transfer (h : Sound events s) (input writing output : List UInt8)
    (sent : List Channel.Frame) : Sound events (s.transfer input writing output sent) :=
  ⟨h.flows, h.logged, h.closings, h.own_iff, h.parent_iff, h.remaining, h.waits⟩

lemma stopped (h : Sound events s) {f : Flow} (hf : f ∈ s.running) :
    Sound events (s.stopped f) where
  flows := by
    have hrunning := ((List.perm_cons_erase hf).append_right s.leaving).append_right s.ended
    refine .trans ?_ (hrunning.symm.trans h.flows)
    simp only [Session.stopped, Session.close, ← List.append_assoc]
    rw [List.append_assoc _ [f]]
    exact List.perm_middle
  logged := h.logged.close
  closings := by
    simp only [Session.stopped, Session.close, List.length_append, List.length_singleton]
    rw [h.closings]
    omega
  own_iff := iff_of_true (own_close h.own_of_closed)
    (.inl (by simp [Session.stopped, Session.close]))
  parent_iff := by
    simp [Session.stopped, Session.close, parent_close, h.parent_iff]
  remaining := by
    have hpos := List.length_pos_of_mem hf
    simp only [Session.stopped, Session.close, List.length_append, List.length_singleton,
      List.length_erase_of_mem hf, h.remaining]
    omega
  waits := h.waits

lemma departed (h : Sound events s) {f : Flow} (hf : f ∈ s.leaving) :
    Sound events (s.departed f) where
  flows := by
    have hleaving := ((List.perm_cons_erase hf).append_left s.running).append_right s.ended
    refine .trans ?_ (hleaving.symm.trans h.flows)
    simp only [Session.departed, ← List.append_assoc]
    rw [List.append_assoc s.running, List.append_assoc s.running, List.append_assoc s.running]
    refine .append_left _ ?_
    exact List.perm_append_singleton f _
  logged := h.logged
  closings := by
    have hpos := List.length_pos_of_mem hf
    simp only [Session.departed, List.length_append, List.length_singleton,
      List.length_erase_of_mem hf, h.closings]
    omega
  own_iff := h.own_iff
  parent_iff := h.parent_iff
  remaining := by
    have hpos := List.length_pos_of_mem hf
    simp only [Session.departed, remaining_decrement, h.remaining, List.length_erase_of_mem hf]
    omega
  waits := by
    have hpos := List.length_pos_of_mem hf
    exact h.waits.decrement (by rw [h.remaining]; omega)

lemma move (h : Sound events s) (hmove : Move s e s') : Sound (events ++ [e]) s' := by
  cases hmove with
  | moved _ he input writing output sent =>
    exact (h.skip (Event.isCall_of_isFlow he)).transfer input writing output sent
  | stopped _ he f hf input writing output sent =>
    exact ((h.skip (Event.isCall_of_isFlow he)).stopped hf).transfer input writing output sent
  | departed f hf =>
    have hskip : Sound (events ++ [.left f]) s := h.skip rfl
    exact hskip.departed hf
  | noticed hnoticing =>
    have hskip : Sound (events ++ [.noticed]) s := h.skip rfl
    have hwaits : Waits s.gate true := hnoticing ▸ h.waits
    exact { hskip with
      remaining := (remaining_notify s.gate).trans h.remaining
      waits := hwaits.notify }
  | unnoticed hnoticing => exact h.skip rfl
  | close => exact h.close
  | cancel => exact h.cancel
  | cancelParent => exact h.cancelParent
  | looked =>
    have hskip : Sound (events ++ [.looked]) s := h.skip rfl
    exact { hskip with waits := h.waits.look }
  | listened =>
    have hskip : Sound (events ++ [.listened]) s := h.skip rfl
    exact { hskip with waits := h.waits.listen }

lemma run (h : Sound events s) (later : List Event) : Sound (events ++ later) (s.run later) := by
  induction later generalizing events s with
  | nil => exact (List.append_nil events).symm ▸ h
  | cons e later ih =>
    have hlater := ih (h.move (step_move s e))
    rwa [List.append_assoc] at hlater

end Sound

/-! ## After the last flow -/

/-- What is still to happen at an open gate before the waiter has passed it. -/
inductive Awaits : Gate → Bool → List Event → Prop where
  | notice (w : Waiter) : Awaits ⟨0, false, [w]⟩ true [.noticed, .listened, .looked]
  | listen : Awaits ⟨0, true, [.listening]⟩ false [.listened, .looked]
  | look (kept : Bool) : Awaits ⟨0, kept, [.looking]⟩ false [.looked]
  | nothing (kept : Bool) : Awaits ⟨0, kept, [.finished]⟩ false []

/-- After notice has been given, the waiter has to listen and to look at most. -/
lemma Waits.awaits {g : Gate} (h : Waits g false) (hopen : g.remaining = 0) :
    ∃ todo, Awaits g false todo ∧ todo.Sublist [.listened, .looked] := by
  cases h with
  | shut n w hw => exact absurd hopen (Nat.succ_ne_zero n)
  | noticed kept w hawake hkept =>
    cases w with
    | looking => exact ⟨_, .look kept, .cons _ (.refl _)⟩
    | listening =>
      obtain rfl := hkept rfl
      exact ⟨_, .listen, .refl _⟩
    | asleep => exact absurd rfl hawake
    | finished => exact ⟨_, .nothing kept, List.nil_sublist _⟩

/-- While the last notice is still to be given, the waiter may be anywhere. -/
lemma Waits.awaits_notice {g : Gate} (h : Waits g true) :
    Awaits g true [.noticed, .listened, .looked] := by
  cases h
  exact .notice _

/-- After the last notice has been given, nobody sleeps. -/
lemma Waits.asleep_not_mem {g : Gate} (h : Waits g false) (hopen : g.remaining = 0) :
    .asleep ∉ g.waiters := by
  cases h with
  | shut n w hw => exact absurd hopen (Nat.succ_ne_zero n)
  | noticed kept w hawake hkept => simpa using hawake.symm

lemma sublist_of_cons {α : Type} {a b : α} {l m : List α} (h : (a :: l).Sublist (b :: m))
    (hne : a ≠ b) : (a :: l).Sublist m := by
  cases h with
  | cons _ h => exact h
  | cons_cons _ h => exact absurd rfl hne

namespace Awaits

variable {g : Gate} {noticing : Bool} {todo later : List Event}

/-- Events that do not concern the gate leave open what is to happen there. -/
lemma skip (h : Awaits g noticing todo) {e : Event} (he : e.isFlow = true ∨ e.isCall = true)
    (hsub : todo.Sublist (e :: later)) : todo.Sublist later := by
  have hnoticed : e ≠ .noticed := by rintro rfl; exact absurd he (by decide)
  have hlooked : e ≠ .looked := by rintro rfl; exact absurd he (by decide)
  have hlistened : e ≠ .listened := by rintro rfl; exact absurd he (by decide)
  cases h with
  | notice w => exact sublist_of_cons hsub hnoticed.symm
  | listen => exact sublist_of_cons hsub hlistened.symm
  | look kept => exact sublist_of_cons hsub hlooked.symm
  | nothing kept => exact List.nil_sublist _

lemma notify (h : Awaits g true todo) (hsub : todo.Sublist (.noticed :: later)) :
    ∃ rest, Awaits g.notify false rest ∧ rest.Sublist later := by
  cases h with
  | notice w =>
    obtain ⟨rest, hrest, hle⟩ := (Waits.opened w).notify.awaits (remaining_notify _)
    exact ⟨rest, hrest, hle.trans (List.cons_sublist_cons.mp hsub)⟩

lemma unnoticed (h : Awaits g false todo) (hsub : todo.Sublist (.noticed :: later)) :
    todo.Sublist later := by
  cases h with
  | listen => exact sublist_of_cons hsub nofun
  | look kept => exact sublist_of_cons hsub nofun
  | nothing kept => exact List.nil_sublist _

lemma lookAll (h : Awaits g noticing todo) (hsub : todo.Sublist (.looked :: later)) :
    ∃ rest, Awaits g.lookAll noticing rest ∧ rest.Sublist later := by
  cases h with
  | notice w => exact ⟨_, .notice _, sublist_of_cons hsub nofun⟩
  | listen => exact ⟨_, .listen, sublist_of_cons hsub nofun⟩
  | look kept => exact ⟨_, .nothing kept, List.nil_sublist _⟩
  | nothing kept => exact ⟨_, .nothing kept, List.nil_sublist _⟩

lemma listenAll (h : Awaits g noticing todo) (hsub : todo.Sublist (.listened :: later)) :
    ∃ rest, Awaits g.listenAll noticing rest ∧ rest.Sublist later := by
  cases h with
  | notice w => cases w <;> exact ⟨_, .notice _, sublist_of_cons hsub nofun⟩
  | listen => exact ⟨_, .look false, List.cons_sublist_cons.mp hsub⟩
  | look kept => exact ⟨_, .look kept, sublist_of_cons hsub nofun⟩
  | nothing kept => exact ⟨_, .nothing kept, List.nil_sublist _⟩

/-- Where no flow runs or leaves, an event does what is to happen next, or leaves it open. -/
lemma move {s s' : Session} {e : Event} (h : Awaits s.gate s.noticing todo)
    (hrunning : s.running = []) (hleaving : s.leaving = []) (hmove : Move s e s')
    (hsub : todo.Sublist (e :: later)) :
    s'.running = [] ∧ s'.leaving = [] ∧
      ∃ rest, Awaits s'.gate s'.noticing rest ∧ rest.Sublist later := by
  cases hmove with
  | moved _ he input writing output sent =>
    exact ⟨hrunning, hleaving, todo, h, h.skip (.inl he) hsub⟩
  | stopped _ he f hf input writing output sent => exact absurd (hrunning ▸ hf) List.not_mem_nil
  | departed f hf => exact absurd (hleaving ▸ hf) List.not_mem_nil
  | noticed hnoticing => exact ⟨hrunning, hleaving, (hnoticing ▸ h).notify hsub⟩
  | unnoticed hnoticing => exact ⟨hrunning, hleaving, todo, h, (hnoticing ▸ h).unnoticed hsub⟩
  | close => exact ⟨hrunning, hleaving, todo, h, h.skip (.inr rfl) hsub⟩
  | cancel => exact ⟨hrunning, hleaving, todo, h, h.skip (.inr rfl) hsub⟩
  | cancelParent => exact ⟨hrunning, hleaving, todo, h, h.skip (.inr rfl) hsub⟩
  | looked => exact ⟨hrunning, hleaving, h.lookAll hsub⟩
  | listened => exact ⟨hrunning, hleaving, h.listenAll hsub⟩

lemma run {s : Session} (h : Awaits s.gate s.noticing todo) (hrunning : s.running = [])
    (hleaving : s.leaving = []) (hsub : todo.Sublist later) : (s.run later).isOver = true := by
  induction later generalizing s todo with
  | nil =>
    obtain rfl := List.sublist_nil.mp hsub
    change s.gate.waiters.all (· == .finished) = true
    generalize s.gate = g at h
    generalize s.noticing = noticing at h
    cases h
    rfl
  | cons e later ih =>
    obtain ⟨hrunning, hleaving, rest, hrest, hle⟩ :=
      h.move hrunning hleaving (step_move s e) hsub
    exact ih hrest hrunning hleaving hle

end Awaits

section

variable {events later : List Event} {s : Session}

lemma Sound.isOver_run_of_noticed (h : Sound events s) (hended : s.ended.length = 3)
    (hnoticing : s.noticing = false) (hlater : [.listened, .looked].Sublist later) :
    (s.run later).isOver = true := by
  obtain ⟨hrunning, hleaving, hopen⟩ := h.of_ended hended
  have hwaits := h.waits
  rw [hnoticing] at hwaits
  obtain ⟨todo, hawaits, hle⟩ := hwaits.awaits hopen
  rw [← hnoticing] at hawaits
  exact hawaits.run hrunning hleaving (hle.trans hlater)

lemma Sound.isOver_run (h : Sound events s) (hended : s.ended.length = 3)
    (hlater : [.noticed, .listened, .looked].Sublist later) : (s.run later).isOver = true := by
  obtain ⟨hrunning, hleaving, -⟩ := h.of_ended hended
  cases hnoticing : s.noticing with
  | false =>
    exact h.isOver_run_of_noticed hended hnoticing ((List.sublist_cons_self _ _).trans hlater)
  | true =>
    have hwaits := h.waits
    rw [hnoticing] at hwaits
    have hawaits := hwaits.awaits_notice
    rw [← hnoticing] at hawaits
    exact hawaits.run hrunning hleaving hlater

end

/-- A flow that runs can end at any moment. -/
lemma run_crashed_left {s : Session} {f : Flow} (hf : f ∈ s.running) :
    (s.run [.crashed f, .left f]).running = s.running.erase f ∧
      (s.run [.crashed f, .left f]).ended = s.ended ++ [f] := by
  have hstopped : s.step (.crashed f) = s.stopped f := if_pos (List.contains_iff_mem.mpr hf)
  have hleaving : f ∈ (s.stopped f).leaving :=
    List.mem_append_right _ (List.mem_singleton_self f)
  have hdeparted : (s.stopped f).step (.left f) = (s.stopped f).departed f :=
    if_pos (List.contains_iff_mem.mpr hleaving)
  have hrun : s.run [.crashed f, .left f] = (s.stopped f).departed f := by
    rw [run, List.foldl_cons, List.foldl_cons, List.foldl_nil, hstopped, hdeparted]
  rw [hrun]
  exact ⟨rfl, rfl⟩

/-- **The end of a session.**  Whatever happens: the first call that closes the session gives
true, and all later ones give false; the processes are killed by the first one alone; there have
been as many calls as there were from outside and flows that do not run any more.  The session is
closed exactly if it has been called to close, and closing it again changes nothing.  Its token
is cancelled exactly if it has been closed, or the token or its parent has been cancelled; the
parent is cancelled only from outside.  A flow that runs can end at any moment, and the gate
misses three releases less the number of flows that have ended.  The wait is not over while a
flow has not ended.  When all three have, it is over as soon as the last notice has been given
and the waiter has had the chance to listen and to look, whatever else happens. -/
theorem run_ends_once (events : List Event) :
    let s := initial.run events
    (s.closings = [] ∨ ∃ later, s.closings = true :: List.replicate later false) ∧
      s.closings.length = events.count .close + (3 - s.running.length) ∧
      s.closer.kills = s.closings.count true ∧
      (s.closer.closed = true ↔ s.closings ≠ []) ∧
      (s.closer.closed = true → s.closer.close = (false, s.closer)) ∧
      (s.closer.cancelled = true ↔
        s.closings ≠ [] ∨ .cancel ∈ events ∨ .cancelParent ∈ events) ∧
      (s.closer.parent = true ↔ .cancelParent ∈ events) ∧
      (s.running ++ s.leaving ++ s.ended).Perm [.listener, .pump, .waiter] ∧
      (∀ f ∈ s.running, (s.run [.crashed f, .left f]).running = s.running.erase f ∧
        (s.run [.crashed f, .left f]).ended = s.ended ++ [f]) ∧
      s.gate.remaining = 3 - s.ended.length ∧
      (s.isOver = true → s.ended.length = 3) ∧
      (s.ended.length = 3 → ∀ later, [.noticed, .listened, .looked].Sublist later →
        (s.run later).isOver = true) ∧
      (s.ended.length = 3 → s.noticing = false → .asleep ∉ s.gate.waiters ∧
        ∀ later, [.listened, .looked].Sublist later → (s.run later).isOver = true) := by
  intro s
  have h : Sound events s := Sound.initial.run events
  have hlength := h.length_flows
  refine ⟨h.logged.first, ?_, h.logged.kills, h.logged.closed_iff, close_of_closed, ?_,
    h.parent_iff, h.flows, fun f hf => run_crashed_left hf, ?_, fun hover => ?_,
    fun hended later hlater => ?_, fun hended hnoticing => ⟨?_, fun later hlater => ?_⟩⟩
  · rw [h.closings]
    omega
  · rw [Closer.cancelled, Bool.or_eq_true, h.own_iff, h.parent_iff, or_assoc]
  · rw [h.remaining]
    omega
  · have hopen := h.waits.remaining_eq_zero hover
    rw [h.remaining] at hopen
    omega
  · exact h.isOver_run hended hlater
  · obtain ⟨-, -, hopen⟩ := h.of_ended hended
    exact (hnoticing ▸ h.waits : Waits s.gate false).asleep_not_mem hopen
  · exact h.isOver_run_of_noticed hended hnoticing hlater

/-- The pump crashes before the end is waited for, the waiter sees the exit while it is, and the
listener ends last, after a cancellation: then the wait ends. -/
theorem run_ends_once_sample :
    let events := [.crashed .pump, .left .pump, .looked, .exited, .close, .listened, .left .waiter,
      .cancelParent, .listenerCancelled, .left .listener]
    let later : List Event := [.noticed, .close, .listened, .cancel, .looked]
    let s := initial.run events
    s.ended.length = 3 ∧ s.isOver = false ∧ s.closer.kills = 1 ∧
      [.noticed, .listened, .looked].Sublist later ∧ (s.run later).isOver = true := by
  intro events later s
  obtain ⟨-, -, hkills, -, -, -, -, -, -, -, -, hover, -⟩ := run_ends_once events
  have hended : s.ended.length = 3 := by decide
  have hlater : [.noticed, .listened, .looked].Sublist later := by decide
  exact ⟨hended, by decide, hkills, hlater, hover hended later hlater⟩

end FleetAgent.Shell.Session
