/-
# Checks exclude each other

A check takes the lock before it looks at the reported state, and has it until it returns.  So
the lock is held exactly while a check is in progress, and at most one is (`Guarded`): what a
check does between its look and its return never overlaps with what another one does.  A check
that finds the lock held, or the engine not idle, leaves everything else as it is (`Passes`).

A call is known by its id.  Of a call that has returned without a query no step can have been
more: either its attempt was about to look, or it was not there (`passes_of_skipped`).  The
reason is that a call that has looked never looks again (`State.HasLooked`).
-/
import FleetAgent.Proofs.Update.Coordinator.Removal
import FleetAgent.Proofs.Update.Coordinator.Restart
import Mathlib.Data.List.Nodup

namespace FleetAgent.Update.Coordinator

/-! ## Calls in progress -/

/-- The ids of the calls in progress, each with whether it is a check. -/
def State.callers (s : State) : List (Nat × Bool) :=
  s.attempts.map fun a => (a.id, a.isCheck)

/-- A check has taken the lock, and has not looked at the reported state yet. -/
def State.IsLooking (s : State) (id : Nat) : Prop :=
  ⟨id, true, .looking⟩ ∈ s.attempts

section

variable {s : State} {id : Nat} {phase : Phase} {a : Attempt}

lemma mem_callers (ha : a ∈ s.attempts) : (a.id, a.isCheck) ∈ s.callers :=
  List.mem_map_of_mem ha

lemma callers_advance (s : State) (id : Nat) (phase : Phase) :
    (s.advance id phase).callers = s.callers := by
  rw [State.callers, State.callers, State.advance, List.map_map]
  refine List.map_congr_left fun a _ => ?_
  by_cases hid : a.id = id
  · simp [hid]
  · simp [hid]

lemma callers_finish (s : State) (id : Nat) :
    (s.finish id).callers = s.callers.filter fun c => c.1 != id := by
  rw [State.callers, State.callers, State.finish, List.filter_map]
  rfl

/-- A call that is over has given its lock back. -/
lemma lock_finish {holder : Nat} :
    (s.finish id).lock = some holder ↔ s.lock = some holder ∧ holder ≠ id := by
  rw [State.finish]
  by_cases hlock : s.lock = some id
  · simp [hlock, eq_comm]
  · simp only [hlock, if_false]
    refine (and_iff_left_of_imp ?_).symm
    rintro hholder rfl
    exact hlock hholder

lemma mem_advance_of_ne (ha : a ∈ s.attempts) (hid : a.id ≠ id) :
    a ∈ (s.advance id phase).attempts :=
  List.mem_map.mpr ⟨a, ha, if_neg hid⟩

lemma phase_of_mem_advance (ha : a ∈ (s.advance id phase).attempts) (hid : a.id = id) :
    a.phase = phase := by
  obtain ⟨b, hb, rfl⟩ := List.mem_map.mp ha
  split at hid
  · next hsame => rw [if_pos hsame]
  · next hother => exact absurd hid hother

end

/-! ## What a move returns -/

section

variable {s s' : State} {e : Event} {r : Option Engine.Event} {effects : List Effect} {id : Nat}

lemma checked_eq_returned {a : Attempt} {result : Except Fault Unit}
    {outcome : Except Fault Outcome} (h : .checked id outcome = returned a result) :
    a.isCheck = true ∧ a.id = id ∧ outcome ≠ .ok .skipped := by
  rw [returned] at h
  split at h
  · next hcheck =>
    cases h
    refine ⟨hcheck, rfl, fun hskipped => ?_⟩
    cases result with
    | ok u => cases hskipped
    | error fault => cases hskipped
  · cases h

lemma queried_ne_returned (a : Attempt) (result : Except Fault Unit) :
    .queried id ≠ Coordinator.returned a result :=
  returned_cases a result (fun _ => nofun) fun _ => nofun

/-- The ways in which a check returns: it finds the lock held, or it is the attempt of its id
that is over, which returns without a query only when it looks at an engine that is not idle. -/
inductive Move.Returns (s : State) (id : Nat) :
    Event → State → Except Fault Outcome → Prop where
  | held (hid : id = s.calls) (hheld : s.lock.isSome = true) :
      Returns s id .check { s with calls := s.calls + 1 } (.ok .skipped)
  | declined (a : Attempt) (ha : a ∈ s.attempts) (hid : a.id = id) (hphase : a.phase = .looking)
      (hbusy : s.canCheck = false) :
      Returns s id (.looked id) (s.finish id) (.ok .skipped)
  | ended (e : Event) (a : Attempt) (folder : Storage.Folder) (result : Except Fault Outcome)
      (ha : a ∈ s.attempts) (hid : a.id = id)
      (hcheck : a.isCheck = true ∨ a.phase = .fetching) (hresult : result ≠ .ok .skipped) :
      Returns s id e { s.finish id with folder := folder } result

/-- A check that returns in a move does so in one of these ways. -/
lemma Move.returns (h : Move s e r s' effects) {result : Except Fault Outcome}
    (hmem : .checked id result ∈ effects) : Move.Returns s id e s' result := by
  cases r with
  | some r => rcases h.report_effects hmem with hx | hx <;> cases hx
  | none =>
    cases h with
    | skipped hheld =>
      cases List.mem_singleton.mp hmem
      exact .held rfl hheld
    | declined a ha hphase hbusy =>
      cases List.mem_singleton.mp hmem
      exact .declined a ha rfl hphase hbusy
    | returned a answer result ha hphase hresult =>
      cases List.mem_singleton.mp hmem
      exact .ended _ a s.folder result ha rfl (.inr hphase) hresult
    | crashed a package reason e ha hphase =>
      obtain ⟨hcheck, rfl, hresult⟩ := checked_eq_returned (List.mem_singleton.mp hmem)
      exact .ended _ a s.folder result ha rfl (.inl hcheck) hresult
    | accepted a package ha hphase =>
      rcases eq_of_mem_accepted hmem with hx | hx
      · cases hx
      · obtain ⟨hcheck, rfl, hresult⟩ := checked_eq_returned hx
        exact .ended _ a s.folder result ha rfl (.inl hcheck) hresult
    | discarded a package fault ha hphase =>
      rcases eq_of_mem_discarded hmem with hx | hx | hx
      · cases hx
      · cases hx
      · obtain ⟨hcheck, rfl, hresult⟩ := checked_eq_returned hx
        exact .ended _ a _ result ha rfl (.inl hcheck) hresult
    | consumed k c pumps hc => rcases eq_of_mem_consumed hmem with hx | hx | hx <;> cases hx
    | _ => simp at hmem

/-- A check queries the source when it looks and the engine is idle. -/
lemma Move.queries (h : Move s e r s' effects) (hmem : .queried id ∈ effects) :
    e = .looked id ∧ s.canCheck = true ∧ s' = s.advance id .fetching ∧ effects = [.queried id] ∧
      ∃ a ∈ s.attempts, a.id = id ∧ a.phase = .looking := by
  cases r with
  | some r => rcases h.report_effects hmem with hx | hx <;> cases hx
  | none =>
    cases h with
    | queried a ha hphase hidle =>
      cases List.mem_singleton.mp hmem
      exact ⟨rfl, hidle, rfl, rfl, a, ha, rfl, hphase⟩
    | crashed a package reason e ha hphase =>
      exact absurd (List.mem_singleton.mp hmem) (queried_ne_returned a _)
    | accepted a package ha hphase =>
      rcases eq_of_mem_accepted hmem with hx | hx
      · cases hx
      · exact absurd hx (queried_ne_returned a _)
    | discarded a package fault ha hphase =>
      rcases eq_of_mem_discarded hmem with hx | hx | hx
      · cases hx
      · cases hx
      · exact absurd hx (queried_ne_returned a _)
    | consumed k c pumps hc => rcases eq_of_mem_consumed hmem with hx | hx | hx <;> cases hx
    | _ => simp at hmem

end

/-! ## The lock -/

/-- The lock belongs to the one check in progress, and only checks look and wait for the
source. -/
structure Guarded (s : State) : Prop where
  lt_calls : ∀ c ∈ s.callers, c.1 < s.calls
  nodup : (s.callers.map Prod.fst).Nodup
  lock_iff : ∀ id, s.lock = some id ↔ (id, true) ∈ s.callers
  isCheck : ∀ a ∈ s.attempts, a.phase = .looking ∨ a.phase = .fetching → a.isCheck = true

namespace Guarded

variable {s s' : State} {effects : List Effect} {e : Event} {r : Option Engine.Event} {id : Nat}

lemma initial (folder : Storage.Folder) : Guarded (.initial folder) where
  lt_calls := by simp [State.initial, State.callers]
  nodup := by simp [State.initial, State.callers]
  lock_iff := by simp [State.initial, State.callers]
  isCheck := by simp [State.initial]

/-- Two attempts with one id are the same. -/
lemma eq_of_id (h : Guarded s) {a b : Attempt} (ha : a ∈ s.attempts) (hb : b ∈ s.attempts)
    (hid : a.id = b.id) : a = b := by
  have hnodup := h.nodup
  rw [State.callers, List.map_map] at hnodup
  exact List.inj_on_of_nodup_map hnodup ha hb hid

/-- A check that is called does not hold the lock yet. -/
lemma lock_ne_calls (h : Guarded s) : s.lock ≠ some s.calls :=
  fun hlock => Nat.lt_irrefl _ (h.lt_calls _ ((h.lock_iff _).mp hlock))

/-- A check in progress holds the lock. -/
lemma lock_eq (h : Guarded s) {a : Attempt} (ha : a ∈ s.attempts)
    (hcheck : a.isCheck = true ∨ a.phase = .fetching) : s.lock = some a.id := by
  have htrue : a.isCheck = true := hcheck.elim (·) fun hphase => h.isCheck a ha (.inr hphase)
  exact (h.lock_iff _).mpr (htrue ▸ mem_callers ha)

/-! ### What a move does to the calls -/

/-- A call is made; if it is a check, it finds the lock free and takes it. -/
lemma called (h : Guarded s) {a : Attempt} (hid : a.id = s.calls)
    (hcheck : a.phase = .looking ∨ a.phase = .fetching → a.isCheck = true)
    (hfree : a.isCheck = true → s.lock = none) :
    Guarded { s with
      lock := if a.isCheck then some s.calls else s.lock
      calls := s.calls + 1
      attempts := s.attempts ++ [a] } := by
  have hcallers : (s.attempts ++ [a]).map (fun a => (a.id, a.isCheck))
      = s.callers ++ [(s.calls, a.isCheck)] := by
    rw [List.map_append, ← hid]
    rfl
  refine ⟨?_, ?_, fun id => ?_, ?_⟩
  · rw [State.callers, hcallers]
    intro c hc
    rcases List.mem_append.mp hc with hc | hc
    · exact Nat.lt_succ_of_lt (h.lt_calls c hc)
    · rw [List.mem_singleton.mp hc]
      exact Nat.lt_succ_self _
  · rw [State.callers, hcallers, List.map_append]
    refine h.nodup.append (List.nodup_singleton _) ?_
    intro i hi hnew
    obtain ⟨c, hc, rfl⟩ := List.mem_map.mp hi
    exact Nat.ne_of_lt (h.lt_calls c hc) (by simpa using hnew)
  · rw [State.callers, hcallers, List.mem_append, ← h.lock_iff]
    cases hkind : a.isCheck with
    | true => simp [hfree hkind, eq_comm]
    | false => simp
  · intro b hb
    rcases List.mem_append.mp hb with hb | hb
    · exact h.isCheck b hb
    · rw [List.mem_singleton.mp hb]
      exact hcheck

/-- An attempt goes on; if it goes on to the source, it is a check. -/
lemma advanced (h : Guarded s) {phase : Phase} (hlooking : phase ≠ .looking)
    (hfetching : phase = .fetching → (id, true) ∈ s.callers) : Guarded (s.advance id phase) := by
  refine ⟨?_, ?_, ?_, fun a ha hphase => ?_⟩
  · rw [callers_advance]
    exact h.lt_calls
  · rw [callers_advance]
    exact h.nodup
  · rw [callers_advance]
    exact h.lock_iff
  · have hcaller := mem_callers ha
    rw [callers_advance] at hcaller
    rcases mem_advance ha with hold | ⟨-, rfl, rfl⟩
    · exact h.isCheck a hold hphase
    · -- no other call has the id of the check
      have hsource := hfetching (hphase.resolve_left hlooking)
      have hsame := List.inj_on_of_nodup_map h.nodup hcaller hsource rfl
      exact (Prod.mk.inj hsame).2

/-- A call is over; if it is a check, it gives the lock back. -/
lemma finished (h : Guarded s) (id : Nat) : Guarded (s.finish id) := by
  refine ⟨fun c hc => ?_, ?_, fun holder => ?_, fun a ha => ?_⟩
  · rw [callers_finish] at hc
    exact h.lt_calls c (List.mem_filter.mp hc).1
  · rw [callers_finish]
    exact h.nodup.sublist (List.filter_sublist.map _)
  · rw [lock_finish, callers_finish, h.lock_iff, List.mem_filter]
    simp
  · exact h.isCheck a (mem_finish.mp ha).1

/-- Only the lock, the attempts and the count of the calls matter. -/
lemma of_eq (h : Guarded s) (hcalls : s.calls ≤ s'.calls) (hattempts : s'.attempts = s.attempts)
    (hlock : s'.lock = s.lock) : Guarded s' := by
  have hcallers : s'.callers = s.callers := by rw [State.callers, State.callers, hattempts]
  refine ⟨fun c hc => ?_, ?_, ?_, ?_⟩
  · exact Nat.lt_of_lt_of_le (h.lt_calls c (hcallers ▸ hc)) hcalls
  · exact hcallers ▸ h.nodup
  · rw [hlock, hcallers]
    exact h.lock_iff
  · exact hattempts ▸ h.isCheck

lemma move (h : Guarded s) (hmove : Move s e r s' effects) : Guarded s' := by
  cases hmove with
  | skipped hheld => exact h.of_eq (Nat.le_succ _) rfl rfl
  | locked hfree =>
    exact h.called (a := ⟨s.calls, true, .looking⟩) rfl (fun _ => rfl) fun _ => hfree
  | asked package => exact h.called (a := ⟨s.calls, false, .extracting package⟩) rfl nofun nofun
  | queried a ha hphase hidle =>
    exact h.advanced nofun fun _ => h.isCheck a ha (.inl hphase) ▸ mem_callers ha
  | fetched a package | unusable a package => exact h.advanced nofun nofun
  | called a package =>
    have hnext : Guarded (s.advance a.id (.applying package)) := h.advanced nofun nofun
    exact hnext.of_eq (Nat.le_refl _) rfl rfl
  | refused a package fault =>
    have hnext : Guarded (s.advance a.id (.discarding package fault)) := h.advanced nofun nofun
    exact hnext.of_eq (Nat.le_refl _) rfl rfl
  | declined a | returned a | crashed a | accepted a => exact h.finished a.id
  | discarded a => exact (h.finished a.id).of_eq (Nat.le_refl _) rfl rfl
  | status | completing | completed | consumed | quiet | ignored =>
    exact h.of_eq (Nat.le_refl _) rfl rfl

lemma run (h : Guarded s) (es : List Event) : Guarded (Coordinator.run s es).1 :=
  run_invariant (fun s _ => Guarded s) (fun _ _ _ _ _ _ h hmove => h.move hmove) s [] h es

end Guarded

/-! ## Looking -/

/-- A call has been made that is not about to look at the reported state. -/
def State.HasLooked (s : State) (id : Nat) : Prop :=
  id < s.calls ∧ ∀ a ∈ s.attempts, a.id = id → a.phase ≠ .looking

section

variable {s s' : State} {effects : List Effect} {e : Event} {r : Option Engine.Event} {id : Nat}

/-- A check that is about to look stays so until it does. -/
lemma Move.isLooking (hmove : Move s e r s' effects) (h : Guarded s) (hlooking : s.IsLooking id)
    (hne : e ≠ .looked id) : s'.IsLooking id := by
  -- an attempt in another phase is that of another call
  have hother {a : Attempt} (ha : a ∈ s.attempts) (hphase : a.phase ≠ .looking) : id ≠ a.id :=
    fun hid => hphase (congrArg Attempt.phase (h.eq_of_id hlooking ha hid)).symm
  cases hmove with
  | skipped | status | completing | completed | consumed | quiet | ignored => exact hlooking
  | locked | asked => exact List.mem_append_left _ hlooking
  | queried a => exact mem_advance_of_ne hlooking fun hid => hne (hid ▸ rfl)
  | declined a => exact mem_finish.mpr ⟨hlooking, fun hid => hne (hid ▸ rfl)⟩
  | fetched a package ha hphase =>
    exact mem_advance_of_ne hlooking (hother ha (hphase ▸ nofun))
  | called a package spec ha hphase =>
    exact mem_advance_of_ne hlooking (hother ha (hphase ▸ nofun))
  | unusable a package fault ha hphase =>
    exact mem_advance_of_ne hlooking (hother ha (hphase ▸ nofun))
  | refused a package fault ha hphase =>
    exact mem_advance_of_ne hlooking (hother ha (hphase ▸ nofun))
  | returned a answer result ha hphase =>
    exact mem_finish.mpr ⟨hlooking, hother ha (hphase ▸ nofun)⟩
  | crashed a package reason fault ha hphase =>
    exact mem_finish.mpr ⟨hlooking, hother ha (hphase ▸ nofun)⟩
  | accepted a package ha hphase =>
    exact mem_finish.mpr ⟨hlooking, hother ha (hphase ▸ nofun)⟩
  | discarded a package fault ha hphase =>
    exact mem_finish.mpr ⟨hlooking, hother ha (hphase ▸ nofun)⟩

lemma isLooking_run (h : Guarded s) (hlooking : s.IsLooking id) {es : List Event}
    (hes : .looked id ∉ es) : (run s es).1.IsLooking id := by
  induction es generalizing s with
  | nil => exact hlooking
  | cons e es ih =>
    have hmove := step_move s e
    have hne : e ≠ .looked id := fun he => hes (he ▸ List.mem_cons_self)
    exact ih (h.move hmove) (hmove.isLooking h hlooking hne) fun hmem => hes (.tail _ hmem)

/-- A check that looks queries the source, or returns if the engine is not idle. -/
lemma Guarded.step_looked (h : Guarded s) (hlooking : s.IsLooking id) :
    step s (.looked id) = onLooked s ⟨id, true, .looking⟩ := by
  have hsome : (s.attempt? id).isSome = true :=
    List.find?_isSome.mpr ⟨_, hlooking, beq_self_eq_true id⟩
  obtain ⟨a, ha⟩ := Option.isSome_iff_exists.mp hsome
  obtain ⟨hmem, hid⟩ := mem_of_attempt? ha
  obtain rfl := h.eq_of_id hmem hlooking hid
  simp only [step, ha]

/-- A call that has looked does not look again. -/
lemma Move.hasLooked (hmove : Move s e r s' effects) (hlooked : s.HasLooked id) :
    s'.HasLooked id := by
  refine ⟨Nat.lt_of_lt_of_le hlooked.1 hmove.calls_le, ?_⟩
  have hnew {phase : Phase} {isCheck : Bool} :
      ∀ a ∈ s.attempts ++ [⟨s.calls, isCheck, phase⟩], a.id = id → a.phase ≠ .looking := by
    intro a ha hid
    rcases List.mem_append.mp ha with ha | ha
    · exact hlooked.2 a ha hid
    · rw [List.mem_singleton.mp ha] at hid
      exact absurd hlooked.1 (hid ▸ Nat.lt_irrefl _)
  have hadvanced {other : Nat} {phase : Phase} (hphase : phase ≠ .looking) :
      ∀ a ∈ (s.advance other phase).attempts, a.id = id → a.phase ≠ .looking := by
    intro a ha hid
    rcases mem_advance ha with hold | ⟨-, -, rfl⟩
    · exact hlooked.2 a hold hid
    · exact hphase
  have hfinished {other : Nat} :
      ∀ a ∈ (s.finish other).attempts, a.id = id → a.phase ≠ .looking :=
    fun a ha => hlooked.2 a (mem_finish.mp ha).1
  cases hmove with
  | locked | asked => exact hnew
  | queried | fetched | called | unusable | refused => exact hadvanced nofun
  | declined | returned | crashed | accepted | discarded => exact hfinished
  | skipped | status | completing | completed | consumed | quiet | ignored => exact hlooked.2

/-- A call that has looked does not return without a query any more. -/
lemma not_skipped_of_hasLooked (hlooked : s.HasLooked id) (es : List Event) :
    .checked id (.ok .skipped) ∉ (run s es).2 := by
  have hrun := run_invariant
    (fun s past => s.HasLooked id ∧ .checked id (.ok .skipped) ∉ past)
    (fun s past e r s' effects h hmove => by
      refine ⟨hmove.hasLooked h.1, fun hmem => ?_⟩
      rcases List.mem_append.mp hmem with hmem | hmem
      · exact h.2 hmem
      · cases hmove.returns hmem with
        | held hid => exact Nat.ne_of_lt h.1.1 hid
        | declined a ha hid hphase => exact h.1.2 a ha hid hphase
        | ended e a folder result ha hid hcheck hresult => exact hresult rfl)
    s [] ⟨hlooked, List.not_mem_nil⟩ es
  exact hrun.2

end

/-! ## Checks that return without a query -/

/-- A step of a call changes nothing but the lock and the attempts, and has no effect but the
return of a check that has not queried the source. -/
structure Passes (id : Nat) (s s' : State) (effects : List Effect) : Prop where
  effects_eq : effects = [] ∨ effects = [.checked id (.ok .skipped)]
  state_eq : s' = { s with lock := s'.lock, calls := s'.calls, attempts := s'.attempts }

section

variable {s s' : State} {effects : List Effect} {e : Event} {r : Option Engine.Event} {id : Nat}

/-- A step of a call passes if the call has no attempt but one that is about to look, and does not
query the source. -/
lemma Move.passes (hmove : Move s e r s' effects) (hcaller : e.caller? s = some id)
    (hphase : ∀ a ∈ s.attempts, a.id = id → a.phase = .looking)
    (hquery : .queried id ∉ effects) : Passes id s s' effects := by
  have hother {a : Attempt} {phase : Phase} (ha : a ∈ s.attempts) (hid : some a.id = some id)
      (h : a.phase = phase) : phase = .looking :=
    h ▸ hphase a ha (Option.some.inj hid)
  cases hmove with
  | skipped hheld =>
    cases hcaller
    exact ⟨.inr rfl, rfl⟩
  | locked | asked | ignored => exact ⟨.inl rfl, rfl⟩
  | queried a =>
    cases hcaller
    exact absurd (List.mem_singleton_self _) hquery
  | declined a =>
    cases hcaller
    exact ⟨.inr rfl, rfl⟩
  | fetched a package ha h => cases hother ha hcaller h
  | called a package spec ha h => cases hother ha hcaller h
  | unusable a package fault ha h => cases hother ha hcaller h
  | refused a package fault ha h => cases hother ha hcaller h
  | returned a answer result ha h => cases hother ha hcaller h
  | crashed a package reason fault ha h => cases hother ha hcaller h
  | accepted a package ha h => cases hother ha hcaller h
  | discarded a package fault ha h => cases hother ha hcaller h
  | status e state progress pumps hnone => cases hnone.symm.trans hcaller
  | completing e code package pump pumps hnone => cases hnone.symm.trans hcaller
  | completed e code pumps hnone => cases hnone.symm.trans hcaller
  | quiet e pumps folder hnone => cases hnone.symm.trans hcaller
  | consumed => cases hcaller

/-- A check that has returned without a query is over. -/
lemma isOver_of_skipped {folder : Storage.Folder} {es : List Event}
    (hmem : .checked id (.ok .skipped) ∈ (run (.initial folder) es).2) :
    (run (.initial folder) es).1.IsOver id := by
  have hrun := run_invariant
    (fun s past => Guarded s ∧ ∀ id, .checked id (.ok .skipped) ∈ past → s.IsOver id)
    (fun s past e r s' effects h hmove => by
      refine ⟨h.1.move hmove, fun id hmem => ?_⟩
      rcases List.mem_append.mp hmem with hmem | hmem
      · exact hmove.isOver (h.2 id hmem)
      · have hlt {a : Attempt} (ha : a ∈ s.attempts) := h.1.lt_calls _ (mem_callers ha)
        cases hmove.returns hmem with
        | held hid => exact ⟨hid ▸ Nat.lt_succ_self _, fun a ha => hid ▸ Nat.ne_of_lt (hlt ha)⟩
        | declined a ha hid hphase =>
          exact ⟨hid ▸ hlt ha, fun b hb => (mem_finish.mp hb).2⟩
        | ended e a folder result ha hid hcheck hresult => exact absurd rfl hresult)
    (.initial folder) [] ⟨.initial folder, by simp⟩ es
  exact hrun.2 id hmem

/-- The steps of a check that returns without a query, now or some time later, all pass. -/
lemma passes_of_skipped {folder : Storage.Folder} {before after : List Event}
    (hmem : .checked id (.ok .skipped) ∈ (run (.initial folder) (before ++ e :: after)).2)
    (hcaller : e.caller? (run (.initial folder) before).1 = some id) :
    Passes id (run (.initial folder) before).1 (step (run (.initial folder) before).1 e).1
      (step (run (.initial folder) before).1 e).2 := by
  rw [run_append, run_cons] at hmem
  have hguarded := (Guarded.initial folder).run before
  have hpast : .checked id (.ok .skipped) ∈ (run (.initial folder) before).2 →
      (run (.initial folder) before).1.IsOver id := isOver_of_skipped
  generalize hs : (run (.initial folder) before).1 = s at *
  have hmove := step_move s e
  -- after a query there is no such return, and after such a return there is no attempt
  by_cases hover : .checked id (.ok .skipped) ∈ (run (.initial folder) before).2
  · have hnone := (hpast hover).2
    refine hmove.passes hcaller (fun a ha hid => absurd hid (hnone a ha)) fun hquery => ?_
    obtain ⟨-, -, -, -, a, ha, hid, -⟩ := hmove.queries hquery
    exact hnone a ha hid
  · have hlater : .checked id (.ok .skipped) ∈ (step s e).2
        ∨ .checked id (.ok .skipped) ∈ (run (step s e).1 after).2 :=
      List.mem_append.mp ((List.mem_append.mp hmem).resolve_left hover)
    have hlooking : ∀ a ∈ s.attempts, a.id = id → a.phase = .looking := by
      intro a ha hid
      by_contra hphase
      have hlooked : s.HasLooked id :=
        ⟨hid ▸ hguarded.lt_calls _ (mem_callers ha), fun b hb hsame =>
          hguarded.eq_of_id hb ha (hsame.trans hid.symm) ▸ hphase⟩
      refine not_skipped_of_hasLooked hlooked (e :: after) ?_
      rw [run_cons]
      exact List.mem_append.mpr hlater
    refine hmove.passes hcaller hlooking fun hquery => ?_
    obtain ⟨-, -, hnext, heffects, a, ha, hid, -⟩ := hmove.queries hquery
    rcases hlater with hnow | hafter
    · simp [heffects] at hnow
    · have hlooked : (s.advance id .fetching).HasLooked id :=
        ⟨hid ▸ hguarded.lt_calls _ (mem_callers ha), fun b hb hsame =>
          phase_of_mem_advance hb hsame ▸ nofun⟩
      rw [hnext] at hafter
      exact not_skipped_of_hasLooked hlooked after hafter

end

/-! ## Checks in a run -/

section

variable {s : State} {e : Event} {id : Nat}

/-- An attempt that is about to look is a check. -/
lemma Guarded.isLooking (h : Guarded s) {a : Attempt} (ha : a ∈ s.attempts) (hid : a.id = id)
    (hphase : a.phase = .looking) : s.IsLooking id := by
  have hcheck := h.isCheck a ha (.inl hphase)
  rw [State.IsLooking, ← hid, ← hcheck, ← hphase]
  exact ha

lemma canCheck_eq_true_iff : s.canCheck = true ↔ s.engineState = some .idle := by
  rw [State.canCheck, beq_iff_eq]

lemma canCheck_eq_false_iff : s.canCheck = false ↔ s.engineState ≠ some .idle := by
  rw [← Bool.not_eq_true, canCheck_eq_true_iff]

/-- A step queries the source exactly if a check that has the lock looks at an idle engine. -/
lemma Guarded.queried_mem_iff (h : Guarded s) :
    .queried id ∈ (step s e).2
      ↔ e = .looked id ∧ s.IsLooking id ∧ s.engineState = some .idle := by
  rw [← canCheck_eq_true_iff]
  constructor
  · intro hmem
    obtain ⟨he, hidle, -, -, a, ha, hid, hphase⟩ := (step_move s e).queries hmem
    exact ⟨he, h.isLooking ha hid hphase, hidle⟩
  · rintro ⟨rfl, hlooking, hidle⟩
    rw [h.step_looked hlooking, onLooked, if_pos hidle]
    exact List.mem_singleton_self _

/-- A check returns without a query exactly if it finds the lock held, or has the lock and looks
at an engine that is not idle. -/
lemma Guarded.skipped_mem_iff (h : Guarded s) :
    .checked id (.ok .skipped) ∈ (step s e).2
      ↔ (e = .check ∧ id = s.calls ∧ s.lock ≠ none)
        ∨ (e = .looked id ∧ s.IsLooking id ∧ s.engineState ≠ some .idle) := by
  rw [← canCheck_eq_false_iff, ← Option.isSome_iff_ne_none]
  constructor
  · intro hmem
    have hreturns := (step_move s e).returns hmem
    generalize (step s e).1 = s' at hreturns
    cases hreturns with
    | held hid hheld => exact .inl ⟨rfl, hid, hheld⟩
    | declined a ha hid hphase hbusy => exact .inr ⟨rfl, h.isLooking ha hid hphase, hbusy⟩
    | ended e a folder result ha hid hcheck hresult => exact absurd rfl hresult
  · rintro (⟨rfl, rfl, hheld⟩ | ⟨rfl, hlooking, hbusy⟩)
    · rw [step, onCheck, if_pos hheld]
      exact List.mem_singleton_self _
    · rw [h.step_looked hlooking, onLooked, if_neg (by simp [hbusy])]
      exact List.mem_singleton_self _

/-- When a check returns, the lock is free, unless somebody else has held it all the time. -/
lemma Guarded.lock_of_checked (h : Guarded s) {result : Except Fault Outcome}
    (hmem : .checked id result ∈ (step s e).2) :
    (step s e).1.lock = none
      ∨ result = .ok .skipped ∧ ∃ holder ≠ id, s.lock = some holder ∧
        (step s e).1.lock = some holder := by
  have hfinish (hlock : s.lock = some id) : (s.finish id).lock = none := by
    rw [State.finish, if_pos hlock]
  have hreturns := (step_move s e).returns hmem
  generalize (step s e).1 = s' at hreturns ⊢
  cases hreturns with
  | held hid hheld =>
    obtain ⟨holder, hholder⟩ := Option.isSome_iff_exists.mp hheld
    refine .inr ⟨rfl, holder, ?_, hholder, hholder⟩
    rintro rfl
    exact h.lock_ne_calls (hid ▸ hholder)
  | declined a ha hid hphase hbusy =>
    exact .inl (hfinish (hid ▸ h.lock_eq ha (.inl (h.isCheck a ha (.inl hphase)))))
  | ended e a folder result ha hid hcheck hresult =>
    exact .inl (hfinish (hid ▸ h.lock_eq ha hcheck))

/-- A check that finds the lock free takes it. -/
lemma isLooking_check (hfree : s.lock = none) : (step s .check).1.IsLooking s.calls := by
  rw [step, onCheck, if_neg (by simp [hfree])]
  exact List.mem_append_right _ (List.mem_singleton_self _)

end

/-- **Checks exclude each other.**  At every moment of every run, the lock is held exactly by the
check in progress, if there is one, and at most one is.  A call queries the source exactly if it
has taken the lock and the latest reported state, when it looks, is idle.  A call returns without
a query exactly if it finds the lock held, or the latest reported state is another or there is
none; then none of its steps has had another effect or has changed more than the lock and the
calls in progress.  When a check returns, whatever the result, the lock is free, unless somebody
else has held it all the time.  A check that is called while the lock is free takes it, and
whatever happens until it looks, it queries the source if the engine is idle then. -/
theorem checks_exclude (folder : Storage.Folder) (es : List Event) :
    let s := (run (.initial folder) es).1
    let trace := (run (.initial folder) es).2
    (∀ id, s.lock = some id ↔ ∃ a ∈ s.attempts, a.isCheck = true ∧ a.id = id) ∧
      (∀ a ∈ s.attempts, ∀ b ∈ s.attempts, a.isCheck = true → b.isCheck = true → a = b) ∧
      (∀ id, .queried id ∈ trace ↔ ∃ before after, es = before ++ .looked id :: after ∧
        (run (.initial folder) before).1.IsLooking id ∧
          (reportedStates (.initial folder) before).getLast? = some .idle) ∧
      (∀ e id, .checked id (.ok .skipped) ∈ (step s e).2 ↔
        (e = .check ∧ id = s.calls ∧ s.lock ≠ none) ∨
          (e = .looked id ∧ s.IsLooking id ∧
            (reportedStates (.initial folder) es).getLast? ≠ some .idle)) ∧
      (∀ id, .checked id (.ok .skipped) ∈ trace → ∀ before e after, es = before ++ e :: after →
        let early := (run (.initial folder) before).1
        e.caller? early = some id → Passes id early (step early e).1 (step early e).2) ∧
      (∀ e id result, .checked id result ∈ (step s e).2 → (step s e).1.lock = none ∨
        result = .ok .skipped ∧
          ∃ holder ≠ id, s.lock = some holder ∧ (step s e).1.lock = some holder) ∧
      (s.lock = none → ∀ between, .looked s.calls ∉ between →
        let later := (run (step s .check).1 between).1
        later.lock = some s.calls ∧ (later.engineState = some .idle →
          .queried s.calls ∈ (step later (.looked s.calls)).2)) := by
  intro s trace
  have hguarded (es : List Event) : Guarded (run (.initial folder) es).1 :=
    (Guarded.initial folder).run es
  have hmirror (es : List Event) : (run (.initial folder) es).1.engineState
      = (reportedStates (.initial folder) es).getLast? := by
    rw [engineState_run]
    exact Option.or_none
  have h : Guarded s := hguarded es
  refine ⟨fun id => ?_, fun a ha b hb hacheck hbcheck => ?_, fun id => ⟨fun hmem => ?_, ?_⟩,
    fun e id => ?_, fun id hmem before e after hes => ?_, fun e id result => h.lock_of_checked,
    fun hfree between hbetween => ?_⟩
  · rw [h.lock_iff]
    simp [State.callers, and_comm]
  · refine h.eq_of_id ha hb (Option.some.inj ?_)
    rw [← h.lock_eq ha (.inl hacheck), ← h.lock_eq hb (.inl hbcheck)]
  · obtain ⟨front, rest, hsplit⟩ := List.append_of_mem hmem
    obtain ⟨before, e, after, _, _, hes, hstep, -⟩ := exists_step_of_run hsplit
    have hquery : .queried id ∈ (step (run (.initial folder) before).1 e).2 := by
      rw [hstep]
      exact List.mem_append_right _ (List.mem_cons_self ..)
    obtain ⟨rfl, hlooking, hidle⟩ := (hguarded before).queried_mem_iff.mp hquery
    exact ⟨before, after, hes, hlooking, hmirror before ▸ hidle⟩
  · rintro ⟨before, after, hes, hlooking, hidle⟩
    have hquery := (hguarded before).queried_mem_iff.mpr ⟨rfl, hlooking, hmirror before ▸ hidle⟩
    simp only [trace, hes, run_append, run_cons, List.mem_append]
    exact .inr (.inl hquery)
  · rw [← hmirror es]
    exact h.skipped_mem_iff
  · subst hes
    exact passes_of_skipped hmem
  · have hcalled : Guarded (step s .check).1 := h.move (step_move s .check)
    have hlooking := isLooking_run hcalled (isLooking_check hfree) hbetween
    have hlater := hcalled.run between
    exact ⟨hlater.lock_eq hlooking (.inl rfl), fun hidle =>
      hlater.queried_mem_iff.mpr ⟨rfl, hlooking, hidle⟩⟩

/-- A check that is called while another one waits for the source returns without a query, and
when the source has failed, the lock is free. -/
theorem checks_exclude_sample :
    let es : List Event := [.report (.status .idle .zero), .check, .looked 0, .check]
    let s := (run (.initial (.empty "/data")) es).1
    s.lock = some 0 ∧ .queried 0 ∈ (run (.initial (.empty "/data")) es).2 ∧
      .checked 1 (.ok .skipped) ∈ (run (.initial (.empty "/data")) es).2 ∧
      (step s (.fetched 0 (.error .missingMetadata))).1.lock = none := by
  intro es s
  obtain ⟨hlock, -, hqueried, -, -, hreturned, -⟩ := checks_exclude (.empty "/data") es
  have hquery : .queried 0 ∈ (run (.initial (.empty "/data")) es).2 :=
    (hqueried 0).mpr ⟨es.take 2, es.drop 3, rfl, List.mem_singleton_self _, rfl⟩
  refine ⟨(hlock 0).mpr ⟨⟨0, true, .fetching⟩, List.mem_singleton_self _, rfl, rfl⟩, hquery, ?_, ?_⟩
  · exact List.mem_cons_of_mem _ (List.mem_cons_of_mem _ (List.mem_singleton_self _))
  · refine (hreturned (.fetched 0 (.error .missingMetadata)) 0 (.error .missingMetadata)
      (List.mem_singleton_self _)).resolve_right ?_
    rintro ⟨hskipped, -⟩
    cases hskipped

end FleetAgent.Update.Coordinator
