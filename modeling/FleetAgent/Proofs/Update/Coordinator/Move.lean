/-
# What a step of the coordinator can do

`Move s e r s' effects` lists the ways in which an event `e` takes the coordinator from `s` to
`s'` with some effects; `r` is the report that the event delivers, if it delivers one.  Every
step is one of these moves (`step_move`), so what all steps keep is proved by cases on moves, and
what all runs keep by induction on the events (`run_cons`).

A run is also read backwards: an effect in the trace of a run belongs to one of its steps
(`exists_step_of_run`).
-/
import FleetAgent.Update.Coordinator
import Mathlib.Tactic.Common

namespace FleetAgent.Update.Coordinator

/-! ## Calls and delivered reports -/

/-- The call that an event is a step of. -/
def Event.caller? (s : State) : Event → Option Nat
  | check | apply _ => some s.calls
  | looked id | fetched id _ | extracted id | crashed id _ | answered id _ | discarded id => some id
  | consumed _ | report _ | bound _ | emitted _ _ | pumped _ | restarted _ _ | written _ _
  | removed _ => none

/-- The report that an event delivers to the coordinator: its own, or the next one of a pump
that does not wait. -/
def State.delivery? (s : State) : Event → Option Engine.Event
  | .report r => some r
  | .pumped k =>
    match s.pumps[k]? with
    | some ⟨r :: _, false⟩ => some r
    | _ => none
  | _ => none

/-- The reports that are delivered in a run, in order. -/
def deliveries : State → List Event → List Engine.Event
  | _, [] => []
  | s, e :: es => (s.delivery? e).toList ++ deliveries (step s e).1 es

/-! ## Moves -/

/-- The ways in which an event changes the coordinator. -/
inductive Move (s : State) :
    Event → Option Engine.Event → State → List Effect → Prop where
  /-- A check returns at once, as somebody holds the lock. -/
  | skipped (hheld : s.lock.isSome = true) :
      Move s .check none { s with calls := s.calls + 1 } [.checked s.calls (.ok .skipped)]
  /-- A check takes the lock. -/
  | locked (hfree : s.lock = none) :
      Move s .check none
        { s with
          lock := some s.calls
          calls := s.calls + 1
          attempts := s.attempts ++ [⟨s.calls, true, .looking⟩] } []
  /-- A check queries the source. -/
  | queried (a : Attempt) (ha : a ∈ s.attempts) (hphase : a.phase = .looking)
      (hidle : s.canCheck = true) :
      Move s (.looked a.id) none (s.advance a.id .fetching) [.queried a.id]
  /-- A check returns without a query, as the engine is not idle. -/
  | declined (a : Attempt) (ha : a ∈ s.attempts) (hphase : a.phase = .looking)
      (hbusy : s.canCheck = false) :
      Move s (.looked a.id) none (s.finish a.id) [.checked a.id (.ok .skipped)]
  /-- A package is to be applied directly. -/
  | asked (package : String) :
      Move s (.apply package) none
        { s with
          calls := s.calls + 1
          attempts := s.attempts ++ [⟨s.calls, false, .extracting package⟩] } []
  /-- A check returns without a package. -/
  | returned (a : Attempt) (answer : Except Fault (Option String)) (result : Except Fault Outcome)
      (ha : a ∈ s.attempts) (hphase : a.phase = .fetching) (hresult : result ≠ .ok .skipped) :
      Move s (.fetched a.id answer) none (s.finish a.id) [.checked a.id result]
  /-- A check goes on with a package. -/
  | fetched (a : Attempt) (package : String) (ha : a ∈ s.attempts) (hphase : a.phase = .fetching) :
      Move s (.fetched a.id (.ok (some package))) none (s.advance a.id (.extracting package)) []
  /-- The engine is given a payload. -/
  | called (a : Attempt) (package : String) (spec : PayloadSpec) (ha : a ∈ s.attempts)
      (hphase : a.phase = .extracting package) (hspec : specAt s.folder package = .ok spec) :
      Move s (.extracted a.id) none
        { s.advance a.id (.applying package) with pending := some package }
        [.called a.id package spec]
  /-- No payload is found. -/
  | unusable (a : Attempt) (package : String) (e : Fault) (ha : a ∈ s.attempts)
      (hphase : a.phase = .extracting package) (hspec : specAt s.folder package = .error e) :
      Move s (.extracted a.id) none (s.advance a.id (.discarding package e))
        [.unusable a.id package]
  /-- An attempt fails because the search for its payload is broken off. -/
  | crashed (a : Attempt) (package reason : String) (e : Fault) (ha : a ∈ s.attempts)
      (hphase : a.phase = .extracting package) :
      Move s (.crashed a.id reason) none (s.finish a.id) [Coordinator.returned a (.error e)]
  /-- An attempt ends because the engine accepts its payload. -/
  | accepted (a : Attempt) (package : String) (ha : a ∈ s.attempts)
      (hphase : a.phase = .applying package) :
      Move s (.answered a.id (.ok ())) none (s.finish a.id)
        [.accepted a.id package, Coordinator.returned a (.ok ())]
  /-- The engine refuses a payload. -/
  | refused (a : Attempt) (package : String) (e : Fault) (ha : a ∈ s.attempts)
      (hphase : a.phase = .applying package) :
      Move s (.answered a.id (.error e)) none
        { s.advance a.id (.discarding package e) with pending := none }
        [.refused a.id package]
  /-- An attempt fails once its package is removed. -/
  | discarded (a : Attempt) (package : String) (e : Fault) (ha : a ∈ s.attempts)
      (hphase : a.phase = .discarding package e) :
      Move s (.discarded a.id) none
        { s.finish a.id with
          folder := (discard s.folder package (.discarded a.id package)).1 }
        [(discard s.folder package (.discarded a.id package)).2,
          Coordinator.returned a (.error e)]
  /-- A state is reported. -/
  | status (e : Event) (state : Engine.State) (progress : Numeral.Single) (pumps : List Pump)
      (hcaller : e.caller? s = none) :
      Move s e (some (.status state progress))
        { s with engineState := some state, statusSeen := true, pumps := pumps }
        (.dispatched (.status state progress)
          :: if !s.statusSeen && state == .needReboot then [.rebooted] else [])
  /-- A completion is reported while a package is pending. -/
  | completing (e : Event) (code : Int) (package : String) (pump : Option Nat)
      (pumps : List Pump) (hcaller : e.caller? s = none) (hpending : s.pending = some package) :
      Move s e (some (.complete code))
        { s with
          pending := none
          completions := s.completions ++ [⟨package, code, pump⟩]
          pumps := pumps }
        [.dispatched (.complete code)]
  /-- A completion is reported while no package is pending. -/
  | completed (e : Event) (code : Int) (pumps : List Pump) (hcaller : e.caller? s = none)
      (hpending : s.pending = none) :
      Move s e (some (.complete code)) { s with pumps := pumps }
        (.dispatched (.complete code) :: restart code)
  /-- A completion goes on once its package is removed. -/
  | consumed (k : Nat) (c : Completion) (pumps : List Pump)
      (hc : s.completions[k]? = some c) :
      Move s (.consumed k) none
        { s with
          completions := s.completions.eraseIdx k
          folder := (discard s.folder c.package (.consumed c.package)).1
          pumps := pumps }
        ((discard s.folder c.package (.consumed c.package)).2 :: restart c.code)
  /-- Without a call, at most the pumps and the files change. -/
  | quiet (e : Event) (pumps : List Pump) (folder : Storage.Folder)
      (hcaller : e.caller? s = none) :
      Move s e none { s with pumps := pumps, folder := folder } []
  /-- An event that nothing waits for changes nothing. -/
  | ignored (e : Event) : Move s e none s []

lemma mem_of_attempt? {s : State} {id : Nat} {a : Attempt} (h : s.attempt? id = some a) :
    a ∈ s.attempts ∧ a.id = id :=
  ⟨List.mem_of_find?_eq_some h, by simpa using List.find?_some h⟩

lemma exists_suspend (s : State) (pump : Option Nat) :
    ∃ pumps, s.suspend pump = { s with pumps := pumps } := by
  cases pump with
  | none => exact ⟨s.pumps, rfl⟩
  | some k => exact ⟨_, rfl⟩

lemma exists_resume (s : State) (pump : Option Nat) :
    ∃ pumps, s.resume pump = { s with pumps := pumps } := by
  cases pump with
  | none => exact ⟨s.pumps, rfl⟩
  | some k =>
    rw [State.resume]
    split
    · exact ⟨s.pumps, rfl⟩
    · exact ⟨_, rfl⟩

lemma onCheck_move (s : State) : Move s .check none (onCheck s).1 (onCheck s).2 := by
  rw [onCheck]
  by_cases hheld : s.lock.isSome = true
  · rw [if_pos hheld]
    exact .skipped hheld
  · rw [if_neg hheld]
    exact .locked (by simpa using hheld)

lemma onLooked_move {s : State} {a : Attempt} (ha : a ∈ s.attempts) (hphase : a.phase = .looking) :
    Move s (.looked a.id) none (onLooked s a).1 (onLooked s a).2 := by
  rw [onLooked]
  by_cases hidle : s.canCheck = true
  · rw [if_pos hidle]
    exact .queried a ha hphase hidle
  · rw [if_neg hidle]
    exact .declined a ha hphase (Bool.not_eq_true _ ▸ hidle)

lemma onFetched_move {s : State} {a : Attempt} (ha : a ∈ s.attempts) (hphase : a.phase = .fetching)
    (result : Except Fault (Option String)) :
    Move s (.fetched a.id result) none (onFetched s a.id result).1
      (onFetched s a.id result).2 := by
  match result with
  | .error e => exact .returned a _ _ ha hphase nofun
  | .ok none => exact .returned a _ _ ha hphase nofun
  | .ok (some package) => exact .fetched a package ha hphase

lemma onExtracted_move {s : State} {a : Attempt} {package : String} (ha : a ∈ s.attempts)
    (hphase : a.phase = .extracting package) :
    Move s (.extracted a.id) none (onExtracted s a package).1 (onExtracted s a package).2 := by
  rw [onExtracted]
  cases hspec : specAt s.folder package with
  | ok spec => exact .called a package spec ha hphase hspec
  | error e => exact .unusable a package e ha hphase hspec

lemma onAnswered_move {s : State} {a : Attempt} {package : String} (ha : a ∈ s.attempts)
    (hphase : a.phase = .applying package) (result : Except Fault Unit) :
    Move s (.answered a.id result) none (onAnswered s a package result).1
      (onAnswered s a package result).2 := by
  cases result with
  | ok u => exact .accepted a package ha hphase
  | error e => exact .refused a package e ha hphase

lemma onConsumed_move (s : State) (k : Nat) :
    Move s (.consumed k) none (onConsumed s k).1 (onConsumed s k).2 := by
  rw [onConsumed]
  cases hc : s.completions[k]? with
  | none => exact .ignored _
  | some c =>
    dsimp only
    split
    · exact .consumed k c s.pumps hc
    · obtain ⟨pumps, hresume⟩ := exists_resume
        { s with
          completions := s.completions.eraseIdx k
          folder := (discard s.folder c.package (.consumed c.package)).1 } c.pump
      rw [hresume]
      exact .consumed k c pumps hc

/-- A dispatched report is a move also when the pump that delivers it has changed. -/
lemma dispatch_move (s : State) {e : Event} (hcaller : e.caller? s = none) (pumps : List Pump)
    (pump : Option Nat) (r : Engine.Event) :
    Move s e (some r) (dispatch { s with pumps := pumps } pump r).1
      (dispatch { s with pumps := pumps } pump r).2 := by
  cases r with
  | status state progress =>
    obtain ⟨waiting, hsuspend⟩ := exists_suspend
      { s with engineState := some state, statusSeen := true, pumps := pumps } pump
    have hmove (pumps : List Pump) := Move.status e state progress pumps hcaller
    simp only [dispatch, onStatus]
    -- the pump that delivers it waits only for a restart
    by_cases hfirst : (!s.statusSeen && state == .needReboot) = true
    · simp only [hfirst, if_true, hsuspend] at hmove ⊢
      exact hmove waiting
    · simp only [hfirst] at hmove ⊢
      exact hmove pumps
  | complete code =>
    obtain ⟨waiting, hsuspend⟩ := exists_suspend { s with pumps := pumps } pump
    simp only [dispatch, onComplete, hsuspend]
    cases hpending : s.pending with
    | some package => exact .completing e code package pump waiting hcaller hpending
    | none =>
      dsimp only
      split
      · simpa only [hpending] using Move.completed e code waiting hcaller hpending
      · simpa only [hpending] using Move.completed e code pumps hcaller hpending

/-- **Every step is a move.** -/
theorem step_move (s : State) (e : Event) :
    Move s e (s.delivery? e) (step s e).1 (step s e).2 := by
  cases e with
  | check => exact onCheck_move s
  | apply package => exact .asked package
  | looked id =>
    simp only [step, State.delivery?]
    split
    · rename_i i c ha
      obtain ⟨hmem, rfl⟩ := mem_of_attempt? ha
      exact onLooked_move hmem rfl
    · exact .ignored _
  | fetched id result =>
    simp only [step, State.delivery?]
    split
    · rename_i i c ha
      obtain ⟨hmem, rfl⟩ := mem_of_attempt? ha
      exact onFetched_move hmem rfl result
    · exact .ignored _
  | extracted id =>
    simp only [step, State.delivery?]
    split
    · rename_i i c package ha
      obtain ⟨hmem, rfl⟩ := mem_of_attempt? ha
      exact onExtracted_move hmem rfl
    · exact .ignored _
  | crashed id reason =>
    simp only [step, State.delivery?]
    split
    · rename_i i c package ha
      obtain ⟨hmem, rfl⟩ := mem_of_attempt? ha
      exact .crashed ⟨i, c, .extracting package⟩ package reason _ hmem rfl
    · exact .ignored _
  | answered id result =>
    simp only [step, State.delivery?]
    split
    · rename_i i c package ha
      obtain ⟨hmem, rfl⟩ := mem_of_attempt? ha
      exact onAnswered_move hmem rfl result
    · exact .ignored _
  | discarded id =>
    simp only [step, State.delivery?]
    split
    · rename_i i c package e ha
      obtain ⟨hmem, rfl⟩ := mem_of_attempt? ha
      exact .discarded ⟨i, c, .discarding package e⟩ package e hmem rfl
    · exact .ignored _
  | consumed k => exact onConsumed_move s k
  | report r => exact dispatch_move s rfl s.pumps none r
  | bound result =>
    cases result with
    | ok u => exact .quiet _ _ s.folder rfl
    | error e => exact .ignored _
  | emitted k r => exact .quiet _ _ s.folder rfl
  | pumped k =>
    rcases hpump : s.pumps[k]? with _ | ⟨_ | ⟨r, queue⟩, _ | _⟩ <;>
      simp only [step, State.delivery?, onPumped, hpump]
    -- only a pump that does not wait delivers a report
    case some.cons.false => exact dispatch_move s rfl _ (some k) r
    all_goals exact .ignored _
  | restarted pump result =>
    obtain ⟨pumps, hresume⟩ := exists_resume s pump
    simp only [step, State.delivery?, hresume]
    exact .quiet _ pumps s.folder rfl
  | written path content => exact .quiet _ s.pumps _ rfl
  | removed path => exact .quiet _ s.pumps _ rfl

/-! ## How steps end -/

/-- What holds of the return of a check and of that of a direct request holds of every
return. -/
@[elab_as_elim]
lemma returned_cases {motive : Effect → Prop} (a : Attempt) (result : Except Fault Unit)
    (checked : ∀ outcome, motive (.checked a.id outcome))
    (applied : ∀ outcome, motive (.applied a.id outcome)) : motive (returned a result) := by
  rw [returned]
  split
  · exact checked _
  · exact applied _

/-- What holds of a removal and of a file that is not there holds of every end of a removal. -/
@[elab_as_elim]
lemma discard_cases {motive : Effect → Prop} (folder : Storage.Folder) (package : String)
    (removal : Effect) (removed : motive removal) (missing : motive (.missing package)) :
    motive (discard folder package removal).2 := by
  rw [discard]
  split
  · exact removed
  · exact missing

lemma eq_rebooted_of_mem_restart {code : Int} {x : Effect} (h : x ∈ restart code) :
    x = .rebooted := by
  rw [restart] at h
  split at h
  · exact List.mem_singleton.mp h
  · exact absurd h List.not_mem_nil

/-! ## Runs -/

@[simp] lemma run_nil (s : State) : run s [] = (s, []) := rfl

lemma run_cons (s : State) (e : Event) (es : List Event) :
    run s (e :: es)
      = ((run (step s e).1 es).1, (step s e).2 ++ (run (step s e).1 es).2) := rfl

lemma run_append (s : State) (early late : List Event) :
    run s (early ++ late)
      = ((run (run s early).1 late).1, (run s early).2 ++ (run (run s early).1 late).2) := by
  induction early generalizing s with
  | nil => simp
  | cons e early ih => rw [List.cons_append, run_cons, ih, run_cons, List.append_assoc]

/-- What moves keep of a state and of the effects that have led to it, runs keep. -/
lemma run_invariant (Inv : State → List Effect → Prop)
    (hmove : ∀ s past e r s' effects, Inv s past → Move s e r s' effects → Inv s' (past ++ effects))
    (s : State) (past : List Effect) (h : Inv s past) (es : List Event) :
    Inv (run s es).1 (past ++ (run s es).2) := by
  induction es generalizing s past with
  | nil => simpa using h
  | cons e es ih =>
    rw [run_cons, ← List.append_assoc]
    exact ih _ _ (hmove s past _ _ _ _ h (step_move s e))

/-- An effect in the trace of a run belongs to a step of the run. -/
lemma exists_step_of_run {s : State} {es : List Event} {before after : List Effect} {x : Effect}
    (h : (run s es).2 = before ++ x :: after) :
    ∃ early e late front rest, es = early ++ e :: late ∧
      (step (run s early).1 e).2 = front ++ x :: rest ∧
      after = rest ++ (run (step (run s early).1 e).1 late).2 := by
  induction es generalizing s before with
  | nil => simp at h
  | cons e es ih =>
    rw [run_cons] at h
    -- the effect belongs to the first step, or to a later one
    have hlater {past : List Effect} (hrest : (run (step s e).1 es).2 = past ++ x :: after) :
        ∃ early e' late front rest, e :: es = early ++ e' :: late ∧
          (step (run s early).1 e').2 = front ++ x :: rest ∧
          after = rest ++ (run (step (run s early).1 e').1 late).2 := by
      obtain ⟨early, e', late, front, rest, rfl, hstep, hafter⟩ := ih hrest
      exact ⟨e :: early, e', late, front, rest, rfl, hstep, hafter⟩
    rcases List.append_eq_append_iff.mp h with ⟨past, hbefore, hrest⟩ | ⟨early, hfirst, hrest⟩
    · exact hlater hrest
    · cases early with
      | nil => exact hlater (show _ = [] ++ x :: after from hrest.symm)
      | cons y early =>
        obtain ⟨rfl, hafter⟩ := List.cons.inj hrest
        exact ⟨[], e, es, before, early, rfl, hfirst, hafter⟩

end FleetAgent.Update.Coordinator
