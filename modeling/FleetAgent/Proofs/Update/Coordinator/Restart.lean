/-
# How often the coordinator restarts the device

A restart is asked for by the first reported state, if that tells that one is due, and by every
successful completion, once its package is removed.  Nothing else asks for one: not a later
state, not a check or an attempt to apply a package, whatever it comes to, and not a rebooter
that has failed before.  What is counted against the restarts are the reports that are
delivered in a run, directly or by pumps.

The count is kept step by step as a balance: the restarts so far and the successful completions
whose packages are still being removed.
-/
import FleetAgent.Proofs.Update.Coordinator.Move
import Mathlib.Data.List.Perm.Basic

namespace FleetAgent.Update

namespace Engine.Event

/-- The state that a report tells, unless it reports a completion. -/
def state? : Event → Option State
  | status state _ => some state
  | complete _ => none

/-- Whether a report tells of a successful completion. -/
def isSuccess : Event → Bool
  | status _ _ => false
  | complete code => code == success

end Engine.Event

namespace Coordinator

/-! ## Restarts that are due -/

/-- Whether a completion in progress is successful. -/
def Completion.isSuccess (c : Completion) : Bool :=
  c.code == Engine.success

/-- The successful completions in progress. -/
def State.due (s : State) : Nat :=
  s.completions.countP Completion.isSuccess

/-- The restarts that reported states ask for, given whether a state has been reported before. -/
def firstRestart (seen : Bool) (states : List Engine.State) : Nat :=
  if !seen && states.head? == some .needReboot then 1 else 0

lemma firstRestart_nil (seen : Bool) : firstRestart seen [] = 0 := by
  simp [firstRestart]

lemma firstRestart_append (seen : Bool) (early late : List Engine.State) :
    firstRestart seen (early ++ late)
      = firstRestart seen early + firstRestart (seen || !early.isEmpty) late := by
  cases early with
  | nil => simp [firstRestart]
  | cons state early => simp [firstRestart]

/-! ## The restarts of a step -/

lemma countP_isReboot_restart (code : Int) :
    (restart code).countP Effect.isReboot = if code = Engine.success then 1 else 0 := by
  rw [restart]
  split <;> rfl

lemma isReboot_discard (folder : Storage.Folder) (package : String) {removal : Effect}
    (h : removal.isReboot = false) : (discard folder package removal).2.isReboot = false :=
  discard_cases folder package removal h rfl

lemma isReboot_returned (a : Attempt) (result : Except Fault Unit) :
    (returned a result).isReboot = false :=
  returned_cases a result (fun _ => rfl) fun _ => rfl

/-- A completion that is over is no longer due. -/
lemma countP_eraseIdx_add {completions : List Completion} {k : Nat} {c : Completion}
    (hc : completions[k]? = some c) :
    (completions.eraseIdx k).countP Completion.isSuccess
        + (if c.code = Engine.success then 1 else 0)
      = completions.countP Completion.isSuccess := by
  -- the completions are those that are left and the one that is over, in some order
  obtain ⟨hk, rfl⟩ := List.getElem?_eq_some_iff.mp hc
  have hperm := List.getElem_cons_eraseIdx_perm hk
  rw [← hperm.countP_eq, List.countP_cons]
  simp only [Completion.isSuccess, beq_iff_eq]

/-- The balance of a move: it asks for a restart, or owes one, for a first state that tells that
one is due and for a successful completion. -/
lemma Move.restarts {s s' : State} {e : Event} {r : Option Engine.Event} {effects : List Effect}
    (h : Move s e r s' effects) :
    effects.countP Effect.isReboot + s'.due
      = s.due + firstRestart s.statusSeen (r.toList.filterMap Engine.Event.state?)
        + r.toList.countP Engine.Event.isSuccess := by
  cases h with
  | crashed a package reason e ha hphase =>
    simp [State.due, State.finish, firstRestart_nil, isReboot_returned]
  | accepted a package ha hphase =>
    have haccepted : (Effect.accepted a.id package).isReboot = false := rfl
    simp [State.due, State.finish, firstRestart_nil, haccepted, isReboot_returned]
  | discarded a package e ha hphase =>
    have hremoval := isReboot_discard s.folder package
      (show (Effect.discarded a.id package).isReboot = false from rfl)
    simp [State.due, State.finish, firstRestart_nil, hremoval, isReboot_returned]
  | status e state progress pumps hcaller =>
    have hdispatched : (Effect.dispatched (.status state progress)).isReboot = false := rfl
    have hstates : [Engine.Event.status state progress].filterMap Engine.Event.state?
        = [state] := rfl
    simp only [Option.toList_some, hstates, firstRestart, List.head?_cons, Option.some_beq_some,
      List.countP_cons, hdispatched]
    by_cases hfirst : (!s.statusSeen && state == .needReboot) = true
    · rw [if_pos hfirst, if_pos hfirst]
      simp [State.due, Effect.isReboot, Engine.Event.isSuccess, Nat.add_comm]
    · rw [if_neg hfirst, if_neg hfirst]
      simp [State.due, Engine.Event.isSuccess]
  | completing e code package pump pumps hcaller hpending =>
    have hdispatched : (Effect.dispatched (.complete code)).isReboot = false := rfl
    simp [State.due, firstRestart_nil, hdispatched, Engine.Event.state?,
      Engine.Event.isSuccess, Completion.isSuccess, List.filterMap_cons]
  | completed e code pumps hcaller hpending =>
    have hdispatched : (Effect.dispatched (.complete code)).isReboot = false := rfl
    simp [State.due, firstRestart_nil, hdispatched, Engine.Event.state?,
      Engine.Event.isSuccess, countP_isReboot_restart, List.filterMap_cons, Nat.add_comm]
  | consumed k c pumps hc =>
    have hremoval := isReboot_discard s.folder c.package
      (show (Effect.consumed c.package).isReboot = false from rfl)
    have herase := countP_eraseIdx_add hc
    simp [State.due, firstRestart_nil, countP_isReboot_restart, hremoval]
    omega
  | _ => simp [State.due, State.finish, State.advance, firstRestart_nil, Effect.isReboot]

/-- A move remembers that a state has been reported. -/
lemma Move.statusSeen {s s' : State} {e : Event} {r : Option Engine.Event} {effects : List Effect}
    (h : Move s e r s' effects) :
    s'.statusSeen
      = (s.statusSeen || !(r.toList.filterMap Engine.Event.state?).isEmpty) := by
  cases h <;> simp [State.finish, State.advance, Engine.Event.state?]

/-- A move mirrors the state that is reported, and keeps the last one otherwise. -/
lemma Move.engineState {s s' : State} {e : Event} {r : Option Engine.Event} {effects : List Effect}
    (h : Move s e r s' effects) :
    s'.engineState = (r.toList.filterMap Engine.Event.state?).getLast?.or s.engineState := by
  cases h <;> simp [State.finish, State.advance, Engine.Event.state?]

/-! ## The restarts of a run -/

/-- The states that are reported in a run, in order. -/
def reportedStates (s : State) (es : List Event) : List Engine.State :=
  (deliveries s es).filterMap Engine.Event.state?

lemma reportedStates_cons (s : State) (e : Event) (es : List Event) :
    reportedStates s (e :: es)
      = (s.delivery? e).toList.filterMap Engine.Event.state?
        ++ reportedStates (step s e).1 es := by
  rw [reportedStates, deliveries, List.filterMap_append]
  rfl

/-- The balance of a run. -/
lemma restarts_run (s : State) (es : List Event) :
    (run s es).2.countP Effect.isReboot + (run s es).1.due
      = s.due + firstRestart s.statusSeen (reportedStates s es)
        + (deliveries s es).countP Engine.Event.isSuccess := by
  induction es generalizing s with
  | nil => simp [deliveries, reportedStates, firstRestart_nil]
  | cons e es ih =>
    have hstep := (step_move s e).restarts
    have hrest := ih (step s e).1
    rw [(step_move s e).statusSeen] at hrest
    rw [run_cons, reportedStates_cons, firstRestart_append, deliveries, List.countP_append,
      List.countP_append]
    dsimp only
    omega

lemma engineState_run (s : State) (es : List Event) :
    (run s es).1.engineState = (reportedStates s es).getLast?.or s.engineState := by
  induction es generalizing s with
  | nil => rfl
  | cons e es ih =>
    rw [run_cons, reportedStates_cons, List.getLast?_append, ih,
      (step_move s e).engineState, Option.or_assoc]

/-- **Restarts and the mirrored state.**  In every run the restarts that have been asked for,
with those of the successful completions whose packages are still being removed, are as many as
the successful completions, and one more if the first state of the run tells that a restart is
due; when no completion is in progress, that is the number of restarts.  The mirrored state is
the last one that has been reported, and none before the first. -/
theorem countP_isReboot_run (folder : Storage.Folder) (es : List Event) :
    let final := (run (.initial folder) es).1
    let restarts := (run (.initial folder) es).2.countP Effect.isReboot
    let states := reportedStates (.initial folder) es
    let successes := (deliveries (.initial folder) es).countP Engine.Event.isSuccess
    restarts + final.due
        = (if states.head? = some .needReboot then 1 else 0) + successes ∧
      (final.completions = [] →
        restarts = (if states.head? = some .needReboot then 1 else 0) + successes) ∧
      final.engineState = states.getLast? := by
  have hbalance := restarts_run (.initial folder) es
  have hmirror := engineState_run (.initial folder) es
  simp only [State.due, firstRestart, State.initial, List.countP_nil, Bool.not_false,
    Bool.true_and, beq_iff_eq, Nat.zero_add, Option.or_none] at hbalance hmirror ⊢
  refine ⟨hbalance, ?_, hmirror⟩
  intro hdone
  rw [hdone, List.countP_nil] at hbalance
  exact hbalance

/-- A first state that tells that a restart is due, and a successful completion. -/
theorem countP_isReboot_sample :
    (run (.initial (.empty "/data"))
      [.report (.status .needReboot .zero), .report (.complete 0)]).2.countP Effect.isReboot = 2 :=
  (countP_isReboot_run (.empty "/data") _).2.1 rfl

end Coordinator

end FleetAgent.Update
