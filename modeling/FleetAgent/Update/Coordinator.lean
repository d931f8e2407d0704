/-
# Coordinating updates

Update checks and attempts to apply a package run at the same time as the engine reports.
At most one check is in progress, and a check queries the source of updates only when the
last state that the engine has reported is idle.  The package that was handed to the engine
last is remembered (`pending`) until the engine refuses one or reports a completion, which
deletes it.  A successful completion restarts the device, and so does a first report that
tells that a restart is due.

The state changes by events.  A check takes the lock, or returns if somebody holds it, and
looks at the reported state afterwards; the lock is given back when the check returns, whatever
it has come to.  An attempt is suspended while the source is queried, while the payload is
looked for, while the engine answers and, when it has failed, while the package is removed.  A
completion is suspended while its package is removed.  Each of these ends by an event of its
own, and other events may come in between.  Reports reach the coordinator directly or through a
pump, which dispatches the reports of one subscription in order; it goes on when a report has
been handled and the rebooter, if it was asked, has answered.
-/
import FleetAgent.Update.Fault
import FleetAgent.Update.Payload

namespace FleetAgent.Update

/-- The place and the properties of the payload in the package at a path. -/
def specAt (folder : Storage.Folder) (package : String) : Except Fault PayloadSpec :=
  match folder.resolve package, folder.read package with
  | .ok path, .ok archive => Payload.specOf (folder.pathText path) archive
  | .error e, _ => .error (.io e)
  | _, .error e => .error (.io e)

namespace Coordinator

/-- What a check has come to. -/
inductive Outcome where
  | skipped
  | noUpdate
  | applying
deriving DecidableEq, Repr, Inhabited

/-- The name of an outcome. -/
def Outcome.name : Outcome → String
  | skipped => "Skipped"
  | noUpdate => "NoUpdate"
  | applying => "Applying"

/-- What an attempt waits for. -/
inductive Phase where
  /-- Nothing: it has taken the lock, and looks at the reported state next. -/
  | looking
  /-- The source of updates. -/
  | fetching
  /-- The search for the payload of a package. -/
  | extracting (package : String)
  /-- The answer of the engine. -/
  | applying (package : String)
  /-- The removal of its package, after which it fails. -/
  | discarding (package : String) (fault : Fault)
deriving DecidableEq, Repr, Inhabited

/-- An attempt in progress: a check, which has taken the lock, or a direct request to apply a
package. -/
structure Attempt where
  id : Nat
  isCheck : Bool
  phase : Phase
deriving DecidableEq, Repr, Inhabited

/-- A completion whose package is being removed, with the pump that has delivered it, if any. -/
structure Completion where
  package : String
  code : Int
  pump : Option Nat
deriving DecidableEq, Repr

/-- The dispatcher of a subscription: the reports that it has not dispatched yet, and whether
the last one that it has dispatched is still being handled. -/
structure Pump where
  queue : List Engine.Event
  isWaiting : Bool
deriving DecidableEq, Repr

/-- The state of the coordinator. -/
structure State where
  /-- The state that the engine has reported last. -/
  engineState : Option Engine.State
  /-- Whether the engine has reported a state. -/
  statusSeen : Bool
  /-- The check that holds the lock. -/
  lock : Option Nat
  /-- The package that the engine was given last. -/
  pending : Option String
  /-- The number of attempts so far, which is the id of the next one. -/
  calls : Nat
  /-- The attempts in progress. -/
  attempts : List Attempt
  /-- The completions in progress. -/
  completions : List Completion
  /-- The pumps in the order of their subscriptions. -/
  pumps : List Pump
  folder : Storage.Folder
deriving Repr

/-- The state before the first event. -/
def State.initial (folder : Storage.Folder) : State :=
  ⟨none, false, none, none, 0, [], [], [], folder⟩

/-- Whether a check that holds the lock may query the source. -/
def State.canCheck (s : State) : Bool :=
  s.engineState == some .idle

/-- The attempt with an id. -/
def State.attempt? (s : State) (id : Nat) : Option Attempt :=
  s.attempts.find? fun a => a.id == id

/-- The state once an attempt is over; a check gives its lock back. -/
def State.finish (s : State) (id : Nat) : State :=
  { s with
    lock := if s.lock = some id then none else s.lock
    attempts := s.attempts.filter fun a => a.id != id }

/-- The state with an attempt in a new phase. -/
def State.advance (s : State) (id : Nat) (phase : Phase) : State :=
  { s with attempts := s.attempts.map fun a => if a.id = id then { a with phase := phase } else a }

/-- The state with a pump, if any, that waits. -/
def State.suspend (s : State) : Option Nat → State
  | some k => { s with pumps := s.pumps.modify k fun p => { p with isWaiting := true } }
  | none => s

/-- The state with a pump, if any, that goes on; one whose completion is in progress does not. -/
def State.resume (s : State) : Option Nat → State
  | some k =>
    if s.completions.any fun c => c.pump == some k then s
    else { s with pumps := s.pumps.modify k fun p => { p with isWaiting := false } }
  | none => s

/-- What can happen. -/
inductive Event where
  /-- A check is called. -/
  | check
  /-- A package is to be applied directly. -/
  | apply (package : String)
  /-- A check that has taken the lock looks at the reported state. -/
  | looked (id : Nat)
  /-- The source answers a check. -/
  | fetched (id : Nat) (result : Except Fault (Option String))
  /-- The search for the payload ends. -/
  | extracted (id : Nat)
  /-- The search for the payload is broken off. -/
  | crashed (id : Nat) (reason : String)
  /-- The engine accepts or refuses a payload. -/
  | answered (id : Nat) (result : Except Fault Unit)
  /-- The removal of the package of a failed attempt ends. -/
  | discarded (id : Nat)
  /-- The removal of the package of a completion ends. -/
  | consumed (k : Nat)
  /-- A report is delivered directly. -/
  | report (r : Engine.Event)
  /-- The engine accepts or refuses a subscription. -/
  | bound (result : Except Fault Unit)
  /-- The engine sends a report to a subscription. -/
  | emitted (pump : Nat) (r : Engine.Event)
  /-- A pump dispatches its next report. -/
  | pumped (pump : Nat)
  /-- The rebooter answers; a request through a pump lets the pump go on. -/
  | restarted (pump : Option Nat) (result : Except Fault Unit)
  /-- A file is written by somebody else. -/
  | written (path : Storage.Path) (content : List UInt8)
  /-- A file is removed by somebody else. -/
  | removed (path : Storage.Path)
deriving Repr

/-- What a step does. -/
inductive Effect where
  /-- A check queries the source. -/
  | queried (id : Nat)
  /-- The engine is given a payload. -/
  | called (id : Nat) (package : String) (spec : PayloadSpec)
  /-- The engine accepts a payload. -/
  | accepted (id : Nat) (package : String)
  /-- The engine refuses a payload. -/
  | refused (id : Nat) (package : String)
  /-- No payload is found in a package. -/
  | unusable (id : Nat) (package : String)
  /-- A failed attempt removes the file of its package. -/
  | discarded (id : Nat) (package : String)
  /-- A completion removes the file of its package. -/
  | consumed (package : String)
  /-- There is no file of a package to remove. -/
  | missing (package : String)
  /-- A report of the engine is dispatched. -/
  | dispatched (r : Engine.Event)
  /-- The rebooter is asked to restart the device. -/
  | rebooted
  /-- A check returns. -/
  | checked (id : Nat) (result : Except Fault Outcome)
  /-- A direct request to apply a package returns. -/
  | applied (id : Nat) (result : Except Fault Unit)
deriving Repr

/-- Whether a step asks for a restart. -/
def Effect.isReboot : Effect → Bool
  | rebooted => true
  | _ => false

/-- The return of an attempt. -/
def returned (a : Attempt) (result : Except Fault Unit) : Effect :=
  if a.isCheck then .checked a.id (result.map fun _ => .applying) else .applied a.id result

/-- The request to restart the device after a completion, if it is successful. -/
def restart (code : Int) : List Effect :=
  if code = Engine.success then [.rebooted] else []

/-- Removes the file of a package, with the effect of that; one that is not there is no
error. -/
def discard (folder : Storage.Folder) (package : String) (removal : Effect) :
    Storage.Folder × Effect :=
  match folder.resolveEntry package with
  | .ok path => (folder.remove path, removal)
  | .error _ => (folder, .missing package)

/-- The step of a check that is called. -/
def onCheck (s : State) : State × List Effect :=
  if s.lock.isSome then
    ({ s with calls := s.calls + 1 }, [.checked s.calls (.ok .skipped)])
  else
    ({ s with
        lock := some s.calls
        calls := s.calls + 1
        attempts := s.attempts ++ [⟨s.calls, true, .looking⟩] }, [])

/-- The step of a check that looks at the reported state. -/
def onLooked (s : State) (a : Attempt) : State × List Effect :=
  if s.canCheck then (s.advance a.id .fetching, [.queried a.id])
  else (s.finish a.id, [.checked a.id (.ok .skipped)])

/-- The step of a direct request to apply a package. -/
def onApply (s : State) (package : String) : State × List Effect :=
  ({ s with
      calls := s.calls + 1
      attempts := s.attempts ++ [⟨s.calls, false, .extracting package⟩] }, [])

/-- The step of an answer of the source. -/
def onFetched (s : State) (id : Nat) : Except Fault (Option String) → State × List Effect
  | .error e => (s.finish id, [.checked id (.error e)])
  | .ok none => (s.finish id, [.checked id (.ok .noUpdate)])
  | .ok (some package) => (s.advance id (.extracting package), [])

/-- The step of the search for the payload of a package. -/
def onExtracted (s : State) (a : Attempt) (package : String) : State × List Effect :=
  match specAt s.folder package with
  | .ok spec =>
    -- the package takes the place of the pending one before the engine has answered
    ({ s.advance a.id (.applying package) with pending := some package },
      [.called a.id package spec])
  | .error e =>
    (s.advance a.id (.discarding package e), [.unusable a.id package])

/-- The step of a search for the payload that is broken off: the attempt fails, and the package
stays where it is. -/
def onCrashed (s : State) (a : Attempt) (reason : String) : State × List Effect :=
  (s.finish a.id, [returned a (.error (.engine ("payload extraction task failed: " ++ reason)))])

/-- The step of an answer of the engine. -/
def onAnswered (s : State) (a : Attempt) (package : String) :
    Except Fault Unit → State × List Effect
  | .ok _ => (s.finish a.id, [.accepted a.id package, returned a (.ok ())])
  | .error e =>
    -- whatever is pending is forgotten, be it this package or another
    ({ s.advance a.id (.discarding package e) with pending := none }, [.refused a.id package])

/-- The step of the removal of the package of a failed attempt. -/
def onDiscarded (s : State) (a : Attempt) (package : String) (e : Fault) :
    State × List Effect :=
  let (folder, effect) := discard s.folder package (.discarded a.id package)
  ({ s.finish a.id with folder := folder }, [effect, returned a (.error e)])

/-- The step of a reported state. -/
def onStatus (s : State) (pump : Option Nat) (state : Engine.State) : State × List Effect :=
  let seen := { s with engineState := some state, statusSeen := true }
  -- no later report counts, also when the restart fails
  if !s.statusSeen && state == .needReboot then (seen.suspend pump, [.rebooted])
  else (seen, [])

/-- The step of a reported completion. -/
def onComplete (s : State) (pump : Option Nat) (code : Int) : State × List Effect :=
  match s.pending with
  | some package =>
    -- the package is forgotten at once, and removed some time later
    ({ s.suspend pump with
        pending := none
        completions := s.completions ++ [⟨package, code, pump⟩] }, [])
  | none => (if code = Engine.success then s.suspend pump else s, restart code)

/-- The step of the removal of the package of a completion. -/
def onConsumed (s : State) (k : Nat) : State × List Effect :=
  match s.completions[k]? with
  | some c =>
    let (folder, effect) := discard s.folder c.package (.consumed c.package)
    let removed := { s with completions := s.completions.eraseIdx k, folder := folder }
    -- after a success the pump still waits for the rebooter
    (if c.code = Engine.success then removed else removed.resume c.pump,
      effect :: restart c.code)
  | none => (s, [])

/-- The step of a report, which a pump may deliver. -/
def dispatch (s : State) (pump : Option Nat) (r : Engine.Event) : State × List Effect :=
  let (s, effects) := match r with
    | .status state _ => onStatus s pump state
    | .complete code => onComplete s pump code
  (s, .dispatched r :: effects)

/-- The step of a pump: it dispatches its next report, unless it waits. -/
def onPumped (s : State) (k : Nat) : State × List Effect :=
  match s.pumps[k]? with
  | some ⟨r :: queue, false⟩ =>
    dispatch { s with pumps := s.pumps.set k ⟨queue, false⟩ } (some k) r
  | _ => (s, [])

/-- The step of an event.  An event for an attempt that is not in the phase it ends changes
nothing, and neither does the answer of the rebooter, except that a pump may go on. -/
def step (s : State) : Event → State × List Effect
  | .check => onCheck s
  | .apply package => onApply s package
  | .looked id =>
    match s.attempt? id with
    | some ⟨i, c, .looking⟩ => onLooked s ⟨i, c, .looking⟩
    | _ => (s, [])
  | .fetched id result =>
    match s.attempt? id with
    | some ⟨_, _, .fetching⟩ => onFetched s id result
    | _ => (s, [])
  | .extracted id =>
    match s.attempt? id with
    | some ⟨i, c, .extracting package⟩ => onExtracted s ⟨i, c, .extracting package⟩ package
    | _ => (s, [])
  | .crashed id reason =>
    match s.attempt? id with
    | some ⟨i, c, .extracting package⟩ => onCrashed s ⟨i, c, .extracting package⟩ reason
    | _ => (s, [])
  | .answered id result =>
    match s.attempt? id with
    | some ⟨i, c, .applying package⟩ => onAnswered s ⟨i, c, .applying package⟩ package result
    | _ => (s, [])
  | .discarded id =>
    match s.attempt? id with
    | some ⟨i, c, .discarding package e⟩ =>
      onDiscarded s ⟨i, c, .discarding package e⟩ package e
    | _ => (s, [])
  | .consumed k => onConsumed s k
  | .report r => dispatch s none r
  | .bound (.ok _) => ({ s with pumps := s.pumps ++ [⟨[], false⟩] }, [])
  | .bound (.error _) => (s, [])
  | .emitted k r =>
    ({ s with pumps := s.pumps.modify k fun p => { p with queue := p.queue ++ [r] } }, [])
  | .pumped k => onPumped s k
  | .restarted pump _ => (s.resume pump, [])
  | .written path content => ({ s with folder := s.folder.put path (.file content) }, [])
  | .removed path => ({ s with folder := s.folder.remove path }, [])

/-- The steps of a row of events. -/
def run : State → List Event → State × List Effect
  | s, [] => (s, [])
  | s, e :: es =>
    let (s, first) := step s e
    let (s, rest) := run s es
    (s, first ++ rest)

/-- The events of the check with an id that is not interrupted, given what the source and the
engine answer. -/
def checkEvents (id : Nat) (source : Except Fault (Option String)) (engine : Except Fault Unit) :
    List Event :=
  [.check, .looked id, .fetched id source, .extracted id, .answered id engine, .discarded id]

/-- The events of the direct request with an id to apply a package that is not interrupted. -/
def applyEvents (id : Nat) (package : String) (engine : Except Fault Unit) : List Event :=
  [.apply package, .extracted id, .answered id engine, .discarded id]

/-- The events of a report that is delivered directly when no completion is in progress, and
that is not interrupted. -/
def reportEvents (r : Engine.Event) : List Event :=
  [.report r, .consumed 0]

/-- The events of a subscription whose reports are all dispatched when no completion is in
progress, each with the answer of the rebooter, and that is not interrupted. -/
def subscriptionEvents (pump : Nat) (reports : List Engine.Event) (rebooter : Except Fault Unit) :
    List Event :=
  .bound (.ok ()) :: reports.map (.emitted pump)
    ++ reports.flatMap fun _ => [.pumped pump, .consumed 0, .restarted (some pump) rebooter]

end Coordinator

end FleetAgent.Update
