/-
# The course of a call

A call goes through its phases one after another, and other events may come in between.  Here the
steps of one call are picked out of a run (`stepsOf`), each with the state that it finds, and put in
order: from the request for a package to the return (`Course`).  There are few courses, as no phase
comes back: a package is searched once, the engine is called at most once, and only a call that has
failed removes its package.

Every run keeps every call on its course (`course_run`).  A move of another call leaves the attempt
of this one alone (`Move.attempt?_of_ne`), and what is done for a call is done in its own steps
(`effectsOf_run`), so the course tells all that there is to know of a call.
-/
import FleetAgent.Proofs.Update.Coordinator.Removal

namespace FleetAgent.Update.Coordinator

/-! ## Attempts by their ids -/

/-- The call that an effect is one of. -/
def Effect.caller? : Effect → Option Nat
  | queried id | called id _ _ | accepted id _ | refused id _ | unusable id _ | discarded id _
  | checked id _ | applied id _ => some id
  | consumed _ | missing _ | dispatched _ | rebooted => none

section

variable {s s' : State} {id : Nat}

lemma attempt?_finish (s : State) (id other : Nat) :
    (s.finish id).attempt? other = if other = id then none else s.attempt? other := by
  rw [State.attempt?, State.attempt?, State.finish, List.find?_filter]
  by_cases hid : other = id
  · subst hid
    simp
  · rw [if_neg hid]
    congr 1
    funext a
    by_cases ha : a.id = other
    · simp [ha, hid]
    · simp [ha]

lemma attempt?_advance (s : State) (id other : Nat) (phase : Phase) :
    (s.advance id phase).attempt? other
      = if other = id then (s.attempt? other).map fun a => { a with phase := phase }
        else s.attempt? other := by
  have hkept : (fun a : Attempt => a.id == other)
      ∘ (fun a => if a.id = id then { a with phase := phase } else a) = fun a => a.id == other := by
    funext a
    by_cases ha : a.id = id
    · simp [ha]
    · simp [ha]
  rw [State.attempt?, State.attempt?, State.advance, List.find?_map, hkept]
  cases hfound : s.attempts.find? fun a => a.id == other with
  | none => simp
  | some a =>
    have hid : a.id = other := by simpa using List.find?_some hfound
    by_cases hother : other = id
    · simp [hid, hother]
    · simp [hid, hother]

/-- A call that begins is found behind those in progress. -/
lemma attempt?_of_concat {a : Attempt} (h : s'.attempts = s.attempts ++ [a]) :
    s'.attempt? id = (s.attempt? id).or (if a.id = id then some a else none) := by
  rw [State.attempt?, State.attempt?, h, List.find?_append]
  by_cases hid : a.id = id
  · simp [hid]
  · simp [hid]

end

/-! ## Moves of other calls -/

section

variable {s s' : State} {e : Event} {r : Option Engine.Event} {effects : List Effect} {id : Nat}

/-- A move of another call, or of none, leaves the attempt of a call as it is. -/
lemma Move.attempt?_of_ne (h : Move s e r s' effects) (hother : e.caller? s ≠ some id) :
    s'.attempt? id = s.attempt? id := by
  have hfinish (folder : Storage.Folder) {other : Nat} (hne : some other ≠ some id) :
      ({ s.finish other with folder := folder } : State).attempt? id = s.attempt? id :=
    (attempt?_finish s other id).trans (if_neg fun hid => hne (congrArg some hid.symm))
  have hadvance (pending : Option String) (phase : Phase) {other : Nat}
      (hne : some other ≠ some id) :
      ({ s.advance other phase with pending := pending } : State).attempt? id = s.attempt? id :=
    (attempt?_advance s other id phase).trans (if_neg fun hid => hne (congrArg some hid.symm))
  have hconcat {a : Attempt} (hne : some a.id ≠ some id) (h : s'.attempts = s.attempts ++ [a]) :
      s'.attempt? id = s.attempt? id := by
    rw [attempt?_of_concat h, if_neg fun hid => hne (congrArg some hid), Option.or_none]
  cases h with
  | locked hfree => exact hconcat (a := ⟨s.calls, true, .looking⟩) hother rfl
  | asked package => exact hconcat (a := ⟨s.calls, false, .extracting package⟩) hother rfl
  | queried | fetched | unusable => exact hadvance s.pending _ hother
  | called | refused => exact hadvance _ _ hother
  | declined | returned | crashed | accepted => exact hfinish s.folder hother
  | discarded => exact hfinish _ hother
  | _ => rfl

lemma caller?_returned (a : Attempt) (result : Except Fault Unit) :
    (returned a result).caller? = some a.id :=
  returned_cases a result (fun _ => rfl) fun _ => rfl

/-- What is done for a call is done in a move of the call. -/
lemma Move.caller?_of_mem (h : Move s e r s' effects) {x : Effect} (hx : x ∈ effects)
    (hcaller : x.caller? = some id) : e.caller? s = some id := by
  cases r with
  | some r => rcases h.report_effects hx with rfl | rfl <;> cases hcaller
  | none =>
    cases h with
    | crashed a package reason fault ha hphase =>
      rw [List.mem_singleton.mp hx, caller?_returned] at hcaller
      exact hcaller
    | accepted a package ha hphase =>
      rcases eq_of_mem_accepted hx with rfl | rfl
      · exact hcaller
      · exact (caller?_returned a (.ok ())).symm.trans hcaller
    | discarded a package fault ha hphase =>
      rcases eq_of_mem_discarded hx with rfl | rfl | rfl
      · exact hcaller
      · cases hcaller
      · exact (caller?_returned a (.error fault)).symm.trans hcaller
    | consumed k c pumps hc =>
      rcases eq_of_mem_consumed hx with rfl | rfl | rfl <;> cases hcaller
    | locked | asked | fetched | quiet | ignored => exact absurd hx List.not_mem_nil
    | _ =>
      rw [List.mem_singleton.mp hx] at hcaller
      exact hcaller

end

/-! ## The steps of a call -/

/-- The steps of a run: each event with the state that it finds. -/
def steps : State → List Event → List (State × Event)
  | _, [] => []
  | s, e :: es => (s, e) :: steps (step s e).1 es

/-- Whether an event is a step of a call, and not one that nothing waits for. -/
def State.concerns (s : State) (e : Event) (id : Nat) : Bool :=
  e.caller? s == some id
    && ((step s e).1.attempt? id != s.attempt? id || !(step s e).2.isEmpty)

/-- The steps of a call in a run. -/
def stepsOf (id : Nat) (s : State) (es : List Event) : List (State × Event) :=
  (steps s es).filter fun x => x.1.concerns x.2 id

/-- The effects in a trace that a call has. -/
def effectsOf (id : Nat) (trace : List Effect) : List Effect :=
  trace.filter fun x => x.caller? == some id

lemma steps_cons (s : State) (e : Event) (es : List Event) :
    steps s (e :: es) = (s, e) :: steps (step s e).1 es := rfl

lemma stepsOf_cons (id : Nat) (s : State) (e : Event) (es : List Event) :
    stepsOf id s (e :: es)
      = (if s.concerns e id then [(s, e)] else []) ++ stepsOf id (step s e).1 es := by
  rw [stepsOf, steps_cons, List.filter_cons]
  split <;> rfl

/-- A step of another call, or of none, does nothing for a call. -/
lemma effectsOf_eq_nil {s : State} {e : Event} {id : Nat} (h : s.concerns e id = false) :
    effectsOf id (step s e).2 = [] := by
  refine List.filter_eq_nil_iff.mpr fun x hx hcaller => ?_
  have hevent : e.caller? s = some id :=
    (step_move s e).caller?_of_mem hx (by simpa using hcaller)
  have hsome : (step s e).2.isEmpty = false := by
    simpa using List.ne_nil_of_mem hx
  simp [State.concerns, hevent, hsome] at h

/-- What is done for a call in a run is done in its steps. -/
lemma effectsOf_run (id : Nat) (s : State) (es : List Event) :
    effectsOf id (run s es).2
      = (stepsOf id s es).flatMap fun x => effectsOf id (step x.1 x.2).2 := by
  induction es generalizing s with
  | nil => rfl
  | cons e es ih =>
    have hfirst : effectsOf id (step s e).2
        = (if s.concerns e id then [(s, e)] else []).flatMap
          fun x => effectsOf id (step x.1 x.2).2 := by
      cases hconcerns : s.concerns e id with
      | true => simp
      | false => simpa using effectsOf_eq_nil hconcerns
    rw [run_cons, stepsOf_cons, List.flatMap_append, ← ih, ← hfirst]
    exact List.filter_append _ _

/-! ## Courses -/

/-- The files once a package has been removed: if its path leads to a file, that file is gone, and
nothing else has changed. -/
def IsWithout (before after : Storage.Folder) (package : String) : Prop :=
  after.location = before.location ∧
    ∀ path, after.get? path
      = if before.resolveEntry package = .ok path then none else before.get? path

lemma isWithout_discard (folder : Storage.Folder) (package : String) (removal : Effect) :
    IsWithout folder (discard folder package removal).1 package := by
  rw [discard]
  cases hentry : folder.resolveEntry package with
  | error e => exact ⟨rfl, fun path => by simp [hentry]⟩
  | ok found =>
    refine ⟨rfl, fun path => ?_⟩
    rw [Storage.Folder.get?_remove]
    by_cases hpath : path = found
    · simp [hpath, hentry]
    · simp [hpath, hentry, Ne.symm hpath]

/-- What a step does: its effects, and the pending package that it leaves; it leaves the files
alone. -/
structure Does (s : State) (e : Event) (effects : List Effect) (pending : Option String) :
    Prop where
  effects_eq : (step s e).2 = effects
  pending_eq : (step s e).1.pending = pending
  folder_eq : (step s e).1.folder = s.folder

/-- A step gives the engine the payload that has been found in a package, which becomes the
pending one. -/
structure Calls (s : State) (id : Nat) (package : String) (spec : PayloadSpec) : Prop where
  specAt_eq : specAt s.folder package = .ok spec
  does : Does s (.extracted id) [.called id package spec] (some package)

/-- A step removes the package of a call that has failed, and the call returns why.  A file that
is not there makes no difference to that. -/
structure Discards (s : State) (a : Attempt) (package : String) (fault : Fault) : Prop where
  effects_eq : ∃ removal, (removal = .discarded a.id package ∨ removal = .missing package) ∧
    (step s (.discarded a.id)).2 = [removal, returned a (.error fault)]
  pending_eq : (step s (.discarded a.id)).1.pending = s.pending
  isWithout : IsWithout s.folder (step s (.discarded a.id)).1.folder package

/-- The steps of a call up to the search of its package, which is asked for directly or found by a
check.  They leave the pending package alone. -/
inductive Begins (id : Nat) : Attempt → List (State × Event) → Prop where
  | asked {s : State} {package : String} (hid : s.calls = id)
      (hstep : Does s (.apply package) [] s.pending) :
      Begins id ⟨id, false, .extracting package⟩ [(s, .apply package)]
  | locked {s : State} (hid : s.calls = id) (hstep : Does s .check [] s.pending) :
      Begins id ⟨id, true, .looking⟩ [(s, .check)]
  | queried {s : State} {past : List (State × Event)} (hpast : Begins id ⟨id, true, .looking⟩ past)
      (hstep : Does s (.looked id) [.queried id] s.pending) :
      Begins id ⟨id, true, .fetching⟩ (past ++ [(s, .looked id)])
  | fetched {s : State} {package : String} {past : List (State × Event)}
      (hpast : Begins id ⟨id, true, .fetching⟩ past)
      (hstep : Does s (.fetched id (.ok (some package))) [] s.pending) :
      Begins id ⟨id, true, .extracting package⟩
        (past ++ [(s, .fetched id (.ok (some package)))])

/-- The steps by which a call fails once it has a package: no payload is found, so that the engine
is not called and the pending package is left alone, or the engine is called and refuses. -/
inductive Fails (id : Nat) (package : String) (fault : Fault) : List (State × Event) → Prop where
  | unusable {s : State} (hspec : specAt s.folder package = .error fault)
      (hstep : Does s (.extracted id) [.unusable id package] s.pending) :
      Fails id package fault [(s, .extracted id)]
  | refused {s s' : State} {spec : PayloadSpec} (hcall : Calls s id package spec)
      (hstep : Does s' (.answered id (.error fault)) [.refused id package] none) :
      Fails id package fault [(s, .extracted id), (s', .answered id (.error fault))]

/-- All the steps of a call so far, given its attempt if it is in progress. -/
inductive Course (id : Nat) : Option Attempt → List (State × Event) → Prop where
  /-- The call has not begun. -/
  | before : Course id none []
  /-- A check finds another one in progress. -/
  | skipped {s : State} (hid : s.calls = id)
      (hstep : Does s .check [.checked id (.ok .skipped)] s.pending) :
      Course id none [(s, .check)]
  /-- The call has no package yet, or has not searched it. -/
  | begun {a : Attempt} {past : List (State × Event)} (hpast : Begins id a past) :
      Course id (some a) past
  /-- A check returns without a package. -/
  | returned {s : State} {phase : Phase} {e : Event} {result : Except Fault Outcome}
      {past : List (State × Event)} (hpast : Begins id ⟨id, true, phase⟩ past)
      (hstep : Does s e [.checked id result] s.pending) (hresult : result ≠ .ok .applying) :
      Course id none (past ++ [(s, e)])
  /-- The search of the package is broken off, and nothing is removed. -/
  | crashed {s : State} {isCheck : Bool} {package reason : String} {fault : Fault}
      {past : List (State × Event)} (hpast : Begins id ⟨id, isCheck, .extracting package⟩ past)
      (hstep : Does s (.crashed id reason)
        [Coordinator.returned ⟨id, isCheck, .extracting package⟩ (.error fault)] s.pending) :
      Course id none (past ++ [(s, .crashed id reason)])
  /-- The engine is called, and has not answered. -/
  | applying {s : State} {isCheck : Bool} {package : String} {spec : PayloadSpec}
      {past : List (State × Event)} (hpast : Begins id ⟨id, isCheck, .extracting package⟩ past)
      (hcall : Calls s id package spec) :
      Course id (some ⟨id, isCheck, .applying package⟩) (past ++ [(s, .extracted id)])
  /-- The engine is called and accepts. -/
  | accepted {s s' : State} {isCheck : Bool} {package : String} {spec : PayloadSpec}
      {past : List (State × Event)} (hpast : Begins id ⟨id, isCheck, .extracting package⟩ past)
      (hcall : Calls s id package spec)
      (hstep : Does s' (.answered id (.ok ()))
        [.accepted id package, Coordinator.returned ⟨id, isCheck, .applying package⟩ (.ok ())]
        s'.pending) :
      Course id none (past ++ [(s, .extracted id), (s', .answered id (.ok ()))])
  /-- The call has failed, and its package is to be removed. -/
  | failing {isCheck : Bool} {package : String} {fault : Fault} {past late : List (State × Event)}
      (hpast : Begins id ⟨id, isCheck, .extracting package⟩ past)
      (hlate : Fails id package fault late) :
      Course id (some ⟨id, isCheck, .discarding package fault⟩) (past ++ late)
  /-- The call has failed, and its package is removed. -/
  | failed {s : State} {isCheck : Bool} {package : String} {fault : Fault}
      {past late : List (State × Event)} (hpast : Begins id ⟨id, isCheck, .extracting package⟩ past)
      (hlate : Fails id package fault late)
      (hstep : Discards s ⟨id, isCheck, .discarding package fault⟩ package fault) :
      Course id none (past ++ late ++ [(s, .discarded id)])

/-! ## Calls stay on their courses -/

/-- The steps of a call so far are a course, and there are none before the call begins. -/
structure OnCourse (s : State) (past : List (State × Event)) (id : Nat) : Prop where
  course : Course id (s.attempt? id) past
  past_eq_nil : s.calls ≤ id → past = []
  lt_calls : ∀ a, s.attempt? id = some a → id < s.calls

namespace OnCourse

variable {s : State} {past : List (State × Event)} {e : Event} {id : Nat}

lemma initial (folder : Storage.Folder) (id : Nat) : OnCourse (.initial folder) [] id where
  course := .before
  past_eq_nil _ := rfl
  lt_calls a ha := by simp [State.attempt?, State.initial] at ha

/-- The steps of a call so far, once an event has been handled. -/
abbrev Next (s : State) (past : List (State × Event)) (e : Event) (id : Nat) : Prop :=
  OnCourse (step s e).1 (past ++ if s.concerns e id then [(s, e)] else []) id

/-- An event of another call, or of none, takes no call off its course. -/
lemma next_of_ne (h : OnCourse s past id) (hother : e.caller? s ≠ some id) : Next s past e id := by
  have hmove := step_move s e
  have hattempt := hmove.attempt?_of_ne hother
  have hno : s.concerns e id = false := by
    simp [State.concerns, hother]
  rw [Next, hno]
  simp only [Bool.false_eq_true, if_false, List.append_nil]
  refine ⟨hattempt ▸ h.course, fun hle => h.past_eq_nil (Nat.le_trans hmove.calls_le hle), ?_⟩
  intro a ha
  exact Nat.lt_of_lt_of_le (h.lt_calls a (hattempt ▸ ha)) hmove.calls_le

/-- An event that nothing waits for takes no call off its course. -/
lemma next_of_ignored (h : OnCourse s past id) (hstep : step s e = (s, [])) : Next s past e id := by
  have hno : s.concerns e id = false := by
    simp [State.concerns, hstep]
  rw [Next, hno, hstep]
  simpa using h

/-- A step that does something for a call, or changes its attempt, is one of its steps. -/
lemma next_of_course (hcaller : e.caller? s = some id)
    (hdone : (step s e).1.attempt? id ≠ s.attempt? id ∨ (step s e).2 ≠ [])
    (hlt : id < (step s e).1.calls)
    (hcourse : Course id ((step s e).1.attempt? id) (past ++ [(s, e)])) : Next s past e id := by
  have hyes : s.concerns e id = true := by
    simpa [State.concerns, hcaller] using hdone
  rw [Next, hyes, if_pos rfl]
  exact ⟨hcourse, fun hle => absurd hlt (Nat.not_lt_of_le hle), fun _ _ => hlt⟩

/-- A call that begins gets an id without a past. -/
lemma of_calls (h : OnCourse s past s.calls) : s.attempt? s.calls = none ∧ past = [] := by
  refine ⟨Option.eq_none_iff_forall_ne_some.mpr fun a ha => ?_, h.past_eq_nil (Nat.le_refl _)⟩
  exact absurd (h.lt_calls a ha) (Nat.lt_irrefl _)

lemma next_check (h : OnCourse s past s.calls) : Next s past .check s.calls := by
  obtain ⟨hnone, rfl⟩ := h.of_calls
  cases hlock : s.lock with
  | some holder =>
    have hstep : step s .check
        = ({ s with calls := s.calls + 1 }, [.checked s.calls (.ok .skipped)]) := by
      simp [step, onCheck, hlock]
    have hattempt : (step s .check).1.attempt? s.calls = none := by
      rw [hstep]
      exact hnone
    refine next_of_course rfl (.inr (by simp [hstep])) (by simp [hstep]) ?_
    rw [hattempt]
    exact .skipped rfl ⟨by rw [hstep], by rw [hstep], by rw [hstep]⟩
  | none =>
    have hstep : step s .check
        = ({ s with
              lock := some s.calls
              calls := s.calls + 1
              attempts := s.attempts ++ [⟨s.calls, true, .looking⟩] }, []) := by
      simp [step, onCheck, hlock]
    have hattempt : (step s .check).1.attempt? s.calls = some ⟨s.calls, true, .looking⟩ := by
      rw [hstep, attempt?_of_concat (s := s) (a := ⟨s.calls, true, .looking⟩) rfl, hnone]
      simp
    refine next_of_course rfl (.inl (by simp [hattempt, hnone])) (by simp [hstep]) ?_
    rw [hattempt]
    exact .begun (.locked rfl ⟨by rw [hstep], by rw [hstep], by rw [hstep]⟩)

lemma next_apply (h : OnCourse s past s.calls) (package : String) :
    Next s past (.apply package) s.calls := by
  obtain ⟨hnone, rfl⟩ := h.of_calls
  have hattempt : (step s (.apply package)).1.attempt? s.calls
      = some ⟨s.calls, false, .extracting package⟩ := by
    rw [attempt?_of_concat (s := s) (a := ⟨s.calls, false, .extracting package⟩) rfl, hnone]
    simp
  refine next_of_course rfl (.inl (by simp [hattempt, hnone])) (Nat.lt_succ_self _) ?_
  rw [hattempt]
  exact .begun (.asked rfl ⟨rfl, rfl, rfl⟩)

/-- An event for an attempt is ignored, or the attempt is on the course of its phase. -/
lemma next_of_attempt (h : OnCourse s past id) (hnone : s.attempt? id = none → step s e = (s, []))
    (hsome : ∀ isCheck phase, s.attempt? id = some ⟨id, isCheck, phase⟩ → id < s.calls →
      Course id (some ⟨id, isCheck, phase⟩) past → Next s past e id) : Next s past e id := by
  cases ha : s.attempt? id with
  | none => exact h.next_of_ignored (hnone ha)
  | some a =>
    obtain ⟨i, isCheck, phase⟩ := a
    have hid : i = id := (mem_of_attempt? ha).2
    subst hid
    exact hsome isCheck phase ha (h.lt_calls _ ha) (ha ▸ h.course)

lemma does_of_advance {phase : Phase} {pending : Option String} {effects : List Effect}
    (hstep : step s e = ({ s.advance id phase with pending := pending }, effects)) :
    Does s e effects pending :=
  ⟨by rw [hstep], by rw [hstep], by rw [hstep]; rfl⟩

lemma does_of_finish {effects : List Effect} (hstep : step s e = (s.finish id, effects)) :
    Does s e effects s.pending :=
  ⟨by rw [hstep], by rw [hstep]; rfl, by rw [hstep]; rfl⟩

/-- A step takes a call to another phase. -/
lemma next_of_advance (phase : Phase) (pending : Option String) {isCheck : Bool} {old : Phase}
    {effects : List Effect} (hcaller : e.caller? s = some id) (hlt : id < s.calls)
    (ha : s.attempt? id = some ⟨id, isCheck, old⟩)
    (hstep : step s e = ({ s.advance id phase with pending := pending }, effects))
    (hcourse : Course id (some ⟨id, isCheck, phase⟩) (past ++ [(s, e)])) (hphase : old ≠ phase) :
    Next s past e id := by
  have hattempt : (step s e).1.attempt? id = some ⟨id, isCheck, phase⟩ := by
    have hadvance := attempt?_advance s id id phase
    rw [if_pos rfl, ha] at hadvance
    rw [hstep]
    exact hadvance
  refine next_of_course hcaller (.inl ?_) (by rw [hstep]; exact hlt) (hattempt ▸ hcourse)
  rw [hattempt, ha]
  simpa using hphase.symm

/-- A step ends a call. -/
lemma next_of_finish {folder : Storage.Folder} {effects : List Effect}
    (hcaller : e.caller? s = some id) (hlt : id < s.calls)
    (hstep : step s e = ({ s.finish id with folder := folder }, effects)) (hne : effects ≠ [])
    (hcourse : Course id none (past ++ [(s, e)])) : Next s past e id := by
  have hattempt : (step s e).1.attempt? id = none := by
    have hfinish := attempt?_finish s id id
    rw [if_pos rfl] at hfinish
    rw [hstep]
    exact hfinish
  refine next_of_course hcaller (.inr (by rw [hstep]; exact hne)) (by rw [hstep]; exact hlt) ?_
  exact hattempt ▸ hcourse

lemma next_looked (h : OnCourse s past id) : Next s past (.looked id) id := by
  refine h.next_of_attempt (fun ha => by simp [step, ha]) fun isCheck phase ha hlt hcourse => ?_
  cases phase with
  | looking =>
    cases hcourse with
    | begun hbegins =>
      obtain rfl : isCheck = true := by cases hbegins; rfl
      by_cases hidle : s.canCheck = true
      · have hstep : step s (.looked id) = (s.advance id .fetching, [.queried id]) := by
          simp [step, ha, onLooked, hidle]
        exact next_of_advance .fetching s.pending rfl hlt ha hstep
          (.begun (.queried hbegins (does_of_advance hstep))) (by simp)
      · have hstep : step s (.looked id) = (s.finish id, [.checked id (.ok .skipped)]) := by
          simp [step, ha, onLooked, hidle]
        exact next_of_finish rfl hlt hstep (List.cons_ne_nil _ _)
          (.returned hbegins (does_of_finish hstep) (by simp))
  | _ => exact h.next_of_ignored (by simp [step, ha])

lemma next_fetched (h : OnCourse s past id) (answer : Except Fault (Option String)) :
    Next s past (.fetched id answer) id := by
  refine h.next_of_attempt (fun ha => by simp [step, ha]) fun isCheck phase ha hlt hcourse => ?_
  cases phase with
  | fetching =>
    cases hcourse with
    | begun hbegins =>
      obtain rfl : isCheck = true := by cases hbegins; rfl
      have hstep : step s (.fetched id answer) = onFetched s id answer := by
        simp [step, ha]
      rcases answer with fault | _ | package
      · exact next_of_finish rfl hlt hstep (List.cons_ne_nil _ _)
          (.returned hbegins (does_of_finish hstep) (by simp))
      · exact next_of_finish rfl hlt hstep (List.cons_ne_nil _ _)
          (.returned hbegins (does_of_finish hstep) (by simp))
      · exact next_of_advance (.extracting package) s.pending rfl hlt ha hstep
          (.begun (.fetched hbegins (does_of_advance hstep))) (by simp)
  | _ => exact h.next_of_ignored (by simp [step, ha])

lemma next_extracted (h : OnCourse s past id) : Next s past (.extracted id) id := by
  refine h.next_of_attempt (fun ha => by simp [step, ha]) fun isCheck phase ha hlt hcourse => ?_
  cases phase with
  | extracting package =>
    cases hcourse with
    | begun hbegins =>
      cases hspec : specAt s.folder package with
      | ok spec =>
        have hstep : step s (.extracted id)
            = ({ s.advance id (.applying package) with pending := some package },
              [.called id package spec]) := by
          simp [step, ha, onExtracted, hspec]
        exact next_of_advance (.applying package) (some package) rfl hlt ha hstep
          (.applying hbegins ⟨hspec, does_of_advance hstep⟩) (by simp)
      | error fault =>
        have hstep : step s (.extracted id)
            = (s.advance id (.discarding package fault), [.unusable id package]) := by
          simp [step, ha, onExtracted, hspec]
        exact next_of_advance (.discarding package fault) s.pending rfl hlt ha hstep
          (.failing hbegins (.unusable hspec (does_of_advance hstep))) (by simp)
  | _ => exact h.next_of_ignored (by simp [step, ha])

lemma next_crashed (h : OnCourse s past id) (reason : String) :
    Next s past (.crashed id reason) id := by
  refine h.next_of_attempt (fun ha => by simp [step, ha]) fun isCheck phase ha hlt hcourse => ?_
  cases phase with
  | extracting package =>
    cases hcourse with
    | begun hbegins =>
      have hstep : step s (.crashed id reason)
          = onCrashed s ⟨id, isCheck, .extracting package⟩ reason := by
        simp [step, ha]
      exact next_of_finish rfl hlt hstep (List.cons_ne_nil _ _)
        (.crashed hbegins (does_of_finish hstep))
  | _ => exact h.next_of_ignored (by simp [step, ha])

lemma next_answered (h : OnCourse s past id) (answer : Except Fault Unit) :
    Next s past (.answered id answer) id := by
  refine h.next_of_attempt (fun ha => by simp [step, ha]) fun isCheck phase ha hlt hcourse => ?_
  cases phase with
  | applying package =>
    have hstep : step s (.answered id answer)
        = onAnswered s ⟨id, isCheck, .applying package⟩ package answer := by
      simp [step, ha]
    cases hcourse with
    | begun hbegins => cases hbegins
    | applying hbegins hcall =>
      cases answer with
      | ok u =>
        refine next_of_finish rfl hlt hstep (List.cons_ne_nil _ _) ?_
        rw [List.append_assoc]
        exact .accepted hbegins hcall (does_of_finish hstep)
      | error fault =>
        refine next_of_advance (.discarding package fault) none rfl hlt ha hstep ?_ (by simp)
        rw [List.append_assoc]
        exact .failing hbegins (.refused hcall (does_of_advance hstep))
  | _ => exact h.next_of_ignored (by simp [step, ha])

lemma next_discarded (h : OnCourse s past id) : Next s past (.discarded id) id := by
  refine h.next_of_attempt (fun ha => by simp [step, ha]) fun isCheck phase ha hlt hcourse => ?_
  cases phase with
  | discarding package fault =>
    have hstep : step s (.discarded id)
        = onDiscarded s ⟨id, isCheck, .discarding package fault⟩ package fault := by
      simp [step, ha]
    cases hcourse with
    | begun hbegins => cases hbegins
    | failing hbegins hfails =>
      refine next_of_finish rfl hlt hstep (List.cons_ne_nil _ _) (.failed hbegins hfails ?_)
      refine ⟨⟨_, discard_eq s.folder package _, congrArg Prod.snd hstep⟩, ?_, ?_⟩
      · exact congrArg (fun x => x.1.pending) hstep
      · rw [hstep]
        exact isWithout_discard s.folder package _
  | _ => exact h.next_of_ignored (by simp [step, ha])

/-- Every step keeps every call on its course. -/
lemma next (h : OnCourse s past id) (e : Event) : Next s past e id := by
  -- an event of the call goes by its phase, every other one leaves its attempt alone
  by_cases hcaller : e.caller? s = some id
  · cases e with
    | check =>
      cases hcaller
      exact h.next_check
    | apply package =>
      cases hcaller
      exact h.next_apply package
    | looked i =>
      cases hcaller
      exact h.next_looked
    | fetched i answer =>
      cases hcaller
      exact h.next_fetched answer
    | extracted i =>
      cases hcaller
      exact h.next_extracted
    | crashed i reason =>
      cases hcaller
      exact h.next_crashed reason
    | answered i answer =>
      cases hcaller
      exact h.next_answered answer
    | discarded i =>
      cases hcaller
      exact h.next_discarded
    | _ => cases hcaller
  · exact h.next_of_ne hcaller

lemma run (h : OnCourse s past id) (es : List Event) :
    OnCourse (run s es).1 (past ++ stepsOf id s es) id := by
  induction es generalizing s past with
  | nil => simpa [stepsOf, steps] using h
  | cons e es ih =>
    have hnext := ih (h.next e)
    rw [List.append_assoc] at hnext
    rw [run_cons, stepsOf_cons]
    exact hnext

end OnCourse

/-- The steps of every call of a run are a course. -/
lemma course_run (folder : Storage.Folder) (es : List Event) (id : Nat) :
    Course id ((run (.initial folder) es).1.attempt? id) (stepsOf id (.initial folder) es) :=
  ((OnCourse.initial folder id).run es).course

end FleetAgent.Update.Coordinator
