/-
# Where removals come from

The coordinator removes the file of a package for an attempt that has failed, because no payload
was found or because the engine has refused it, and for a completion.  The removal comes some
time after its cause, and other events may come in between.  So what is known of removals is an
invariant of the state and of all the effects that have led to it (`Accounted`): every attempt
whose package is being removed has failed, every completion in progress has been dispatched,
and the same of what has been removed already.

An attempt that is over does nothing more (`State.IsOver`), as ids are not given out twice.
-/
import FleetAgent.Proofs.Update.Coordinator.Move

namespace FleetAgent.Update.Coordinator

/-! ## Attempts after a move -/

lemma mem_finish {s : State} {id : Nat} {a : Attempt} :
    a ∈ (s.finish id).attempts ↔ a ∈ s.attempts ∧ a.id ≠ id := by
  simp [State.finish]

lemma mem_advance {s : State} {id : Nat} {phase : Phase} {a : Attempt}
    (h : a ∈ (s.advance id phase).attempts) :
    a ∈ s.attempts ∨ (∃ b ∈ s.attempts, b.id = a.id) ∧ a.id = id ∧ a.phase = phase := by
  obtain ⟨b, hb, rfl⟩ := List.mem_map.mp h
  by_cases hid : b.id = id
  · rw [if_pos hid]
    exact .inr ⟨⟨b, hb, rfl⟩, hid, rfl⟩
  · rw [if_neg hid]
    exact .inl hb

section

variable {s s' : State} {e : Event} {r : Option Engine.Event} {effects : List Effect}

lemma Move.calls_le (h : Move s e r s' effects) : s.calls ≤ s'.calls := by
  cases h <;> first | exact Nat.le_refl _ | exact Nat.le_succ _

/-- An attempt after a move is an old one as it was, an old one in a new phase or a new one; it
gets to the removal of its package by failing. -/
lemma Move.mem_attempts (h : Move s e r s' effects) {a : Attempt} (ha : a ∈ s'.attempts) :
    a ∈ s.attempts ∨
      ((∃ b ∈ s.attempts, b.id = a.id) ∨ a.id = s.calls ∧ s.calls < s'.calls) ∧
        ∀ package e, a.phase = .discarding package e →
          .refused a.id package ∈ effects ∨ .unusable a.id package ∈ effects := by
  have hnew {phase : Phase} {isCheck : Bool} (hphase : ∀ p e, phase ≠ .discarding p e)
      (ha : a ∈ s.attempts ++ [⟨s.calls, isCheck, phase⟩]) :
      a ∈ s.attempts ∨ a.id = s.calls ∧ ∀ p e, a.phase ≠ .discarding p e := by
    rcases List.mem_append.mp ha with ha | ha
    · exact .inl ha
    · rw [List.mem_singleton.mp ha]
      exact .inr ⟨rfl, hphase⟩
  cases h with
  | locked hfree =>
    rcases hnew (fun p e h => by cases h) ha with ha | ⟨hid, hphase⟩
    · exact .inl ha
    · exact .inr ⟨.inr ⟨hid, Nat.lt_succ_self _⟩, fun p e h => absurd h (hphase p e)⟩
  | queried b hb hphase hidle =>
    rcases mem_advance ha with ha | ⟨hold, -, hadvanced⟩
    · exact .inl ha
    · exact .inr ⟨.inl hold, fun p e h => by cases hadvanced.symm.trans h⟩
  | asked package =>
    rcases hnew (fun p e h => by cases h) ha with ha | ⟨hid, hphase⟩
    · exact .inl ha
    · exact .inr ⟨.inr ⟨hid, Nat.lt_succ_self _⟩, fun p e h => absurd h (hphase p e)⟩
  | fetched b package hb hphase =>
    rcases mem_advance ha with ha | ⟨hold, -, hadvanced⟩
    · exact .inl ha
    · exact .inr ⟨.inl hold, fun p e h => by cases hadvanced.symm.trans h⟩
  | called b package spec hb hphase hspec =>
    rcases mem_advance ha with ha | ⟨hold, -, hadvanced⟩
    · exact .inl ha
    · exact .inr ⟨.inl hold, fun p e h => by cases hadvanced.symm.trans h⟩
  | unusable b package fault hb hphase hspec =>
    -- the phase names the package, and so does the effect
    rcases mem_advance ha with ha | ⟨hold, hid, hadvanced⟩
    · exact .inl ha
    · refine .inr ⟨.inl hold, fun p e h => .inr ?_⟩
      cases hadvanced.symm.trans h
      rw [hid]
      exact List.mem_singleton_self _
  | refused b package fault hb hphase =>
    rcases mem_advance ha with ha | ⟨hold, hid, hadvanced⟩
    · exact .inl ha
    · refine .inr ⟨.inl hold, fun p e h => .inl ?_⟩
      cases hadvanced.symm.trans h
      rw [hid]
      exact List.mem_singleton_self _
  | declined | returned | crashed | accepted | discarded => exact .inl (mem_finish.mp ha).1
  | _ => exact .inl ha

/-- A completion in progress has been dispatched, in this move or before. -/
lemma Move.dispatched_of_completions (h : Move s e r s' effects) (hne : s'.completions ≠ []) :
    s.completions ≠ [] ∨ ∃ code, .dispatched (.complete code) ∈ effects := by
  cases h with
  | completing e code package pump pumps hcaller hpending =>
    exact .inr ⟨code, List.mem_singleton_self _⟩
  | consumed k c pumps hc =>
    refine .inl fun hnil => ?_
    simp [hnil] at hc
  | _ => exact .inl hne

/-! ## Removals in a move -/

/-- Whether an effect removes the file of a package. -/
def Effect.isRemoval : Effect → Bool
  | discarded _ _ => true
  | consumed _ => true
  | _ => false

lemma isRemoval_returned (a : Attempt) (result : Except Fault Unit) :
    (returned a result).isRemoval = false :=
  returned_cases a result (fun _ => rfl) fun _ => rfl

lemma discard_eq (folder : Storage.Folder) (package : String) (removal : Effect) :
    (discard folder package removal).2 = removal
      ∨ (discard folder package removal).2 = .missing package :=
  discard_cases folder package removal (.inl rfl) (.inr rfl)

/-- A report has no effects but its dispatch and the request to restart the device. -/
lemma Move.report_effects {r : Engine.Event} (h : Move s e (some r) s' effects) {x : Effect}
    (hx : x ∈ effects) : x = .dispatched r ∨ x = .rebooted := by
  cases h with
  | status e state progress pumps hcaller =>
    rcases List.mem_cons.mp hx with hx | hx
    · exact .inl hx
    · split at hx
      · exact .inr (List.mem_singleton.mp hx)
      · exact absurd hx List.not_mem_nil
  | completing e code package pump pumps hcaller hpending => exact .inl (List.mem_singleton.mp hx)
  | completed e code pumps hcaller hpending =>
    rcases List.mem_cons.mp hx with hx | hx
    · exact .inl hx
    · exact .inr (eq_rebooted_of_mem_restart hx)

/-- A completion that goes on removes its package, and may ask for a restart. -/
lemma eq_of_mem_consumed {folder : Storage.Folder} {package : String} {code : Int} {x : Effect}
    (hx : x ∈ (discard folder package (.consumed package)).2 :: restart code) :
    x = .consumed package ∨ x = .missing package ∨ x = .rebooted := by
  rcases List.mem_cons.mp hx with rfl | hx
  · exact (discard_eq folder package _).imp_right .inl
  · exact .inr (.inr (eq_rebooted_of_mem_restart hx))

/-- An attempt that has succeeded accepts its package and returns. -/
lemma eq_of_mem_accepted {package : String} {a : Attempt} {result : Except Fault Unit} {x : Effect}
    (hx : x ∈ [.accepted a.id package, returned a result]) :
    x = .accepted a.id package ∨ x = returned a result :=
  (List.mem_cons.mp hx).imp_right List.mem_singleton.mp

/-- An attempt that has failed removes its package and returns. -/
lemma eq_of_mem_discarded {folder : Storage.Folder} {package : String} {a : Attempt}
    {result : Except Fault Unit} {x : Effect}
    (hx : x ∈ [(discard folder package (.discarded a.id package)).2, returned a result]) :
    x = .discarded a.id package ∨ x = .missing package ∨ x = returned a result := by
  rcases List.mem_cons.mp hx with rfl | hx
  · exact (discard_eq folder package _).imp_right .inl
  · exact .inr (.inr (List.mem_singleton.mp hx))

/-- What a move removes is the package of an attempt that has come to that, or a completion is
in progress. -/
lemma Move.removal (h : Move s e r s' effects) {x : Effect} (hx : x ∈ effects)
    (hremoval : x.isRemoval = true) :
    (∃ a ∈ s.attempts, ∃ package e, a.phase = .discarding package e ∧
        x = .discarded a.id package) ∨
      s.completions ≠ [] ∧ ∃ package, x = .consumed package := by
  cases r with
  | some r => rcases h.report_effects hx with rfl | rfl <;> cases hremoval
  | none =>
    cases h with
    | crashed a package reason e ha hphase =>
      rw [List.mem_singleton.mp hx, isRemoval_returned] at hremoval
      cases hremoval
    | accepted a package ha hphase =>
      rcases eq_of_mem_accepted hx with rfl | rfl
      · cases hremoval
      · exact absurd hremoval (by simp [isRemoval_returned])
    | discarded a package e ha hphase =>
      rcases eq_of_mem_discarded hx with rfl | rfl | rfl
      · exact .inl ⟨a, ha, package, e, hphase, rfl⟩
      · cases hremoval
      · exact absurd hremoval (by simp [isRemoval_returned])
    | consumed k c pumps hc =>
      have hne : s.completions ≠ [] := by
        rintro hnil
        simp [hnil] at hc
      rcases eq_of_mem_consumed hx with rfl | rfl | rfl
      · exact .inr ⟨hne, c.package, rfl⟩
      · cases hremoval
      · cases hremoval
    | locked | asked | fetched | quiet | ignored => exact absurd hx List.not_mem_nil
    | _ =>
      rw [List.mem_singleton.mp hx] at hremoval
      cases hremoval

end

/-! ## Removals in a run -/

/-- What the attempts and the completions in progress, and the removals so far, have been
preceded by. -/
structure Accounted (s : State) (past : List Effect) : Prop where
  /-- The attempts have ids that have been given out. -/
  lt_calls : ∀ a ∈ s.attempts, a.id < s.calls
  /-- An attempt whose package is being removed has failed. -/
  failing : ∀ a ∈ s.attempts, ∀ package e, a.phase = .discarding package e →
    .refused a.id package ∈ past ∨ .unusable a.id package ∈ past
  /-- An attempt that has removed its package has failed. -/
  failed : ∀ id package, .discarded id package ∈ past →
    .refused id package ∈ past ∨ .unusable id package ∈ past
  /-- A completion in progress has been dispatched. -/
  completing : s.completions ≠ [] → ∃ code, .dispatched (.complete code) ∈ past
  /-- The package of a completion is removed after it has been dispatched. -/
  completed : ∀ package, .consumed package ∈ past → ∃ code, .dispatched (.complete code) ∈ past

namespace Accounted

lemma initial (folder : Storage.Folder) : Accounted (.initial folder) [] where
  lt_calls := by simp [State.initial]
  failing := by simp [State.initial]
  failed := by simp
  completing := by simp [State.initial]
  completed := by simp

lemma move {s : State} {past : List Effect} {e : Event} {r : Option Engine.Event} {s' : State}
    {effects : List Effect} (h : Accounted s past) (hmove : Move s e r s' effects) :
    Accounted s' (past ++ effects) where
  lt_calls a ha := by
    rcases hmove.mem_attempts ha with ha | ⟨⟨b, hb, hid⟩ | ⟨hid, hlt⟩, -⟩
    · exact Nat.lt_of_lt_of_le (h.lt_calls a ha) hmove.calls_le
    · exact hid ▸ Nat.lt_of_lt_of_le (h.lt_calls b hb) hmove.calls_le
    · exact hid ▸ hlt
  failing a ha package e hphase := by
    rcases hmove.mem_attempts ha with ha | ⟨-, hfail⟩
    · exact (h.failing a ha package e hphase).imp (List.mem_append_left _) (List.mem_append_left _)
    · exact (hfail package e hphase).imp (List.mem_append_right _) (List.mem_append_right _)
  failed id package hmem := by
    rcases List.mem_append.mp hmem with hmem | hmem
    · exact (h.failed id package hmem).imp (List.mem_append_left _) (List.mem_append_left _)
    · rcases hmove.removal hmem rfl with ⟨a, ha, p, e, hphase, heq⟩ | ⟨-, p, heq⟩
      · cases heq
        exact (h.failing a ha package e hphase).imp
          (List.mem_append_left _) (List.mem_append_left _)
      · cases heq
  completing hne := by
    rcases hmove.dispatched_of_completions hne with hne | ⟨code, hcode⟩
    · exact (h.completing hne).imp fun code => List.mem_append_left _
    · exact ⟨code, List.mem_append_right _ hcode⟩
  completed package hmem := by
    rcases List.mem_append.mp hmem with hmem | hmem
    · exact (h.completed package hmem).imp fun code => List.mem_append_left _
    · rcases hmove.removal hmem rfl with ⟨a, ha, p, e, hphase, heq⟩ | ⟨hne, -⟩
      · cases heq
      · exact (h.completing hne).imp fun code => List.mem_append_left _

lemma run {s : State} {past : List Effect} (h : Accounted s past) (es : List Event) :
    Accounted (run s es).1 (past ++ (run s es).2) :=
  run_invariant Accounted (fun _ _ _ _ _ _ h hmove => h.move hmove) s past h es

end Accounted

/-! ## Attempts that are over -/

/-- An id has been given out, and its attempt is over. -/
def State.IsOver (s : State) (id : Nat) : Prop :=
  id < s.calls ∧ ∀ a ∈ s.attempts, a.id ≠ id

section

variable {s s' : State} {e : Event} {r : Option Engine.Event} {effects : List Effect} {id : Nat}

/-- An attempt that is over does not come back. -/
lemma Move.isOver (h : Move s e r s' effects) (hover : s.IsOver id) : s'.IsOver id := by
  -- new attempts get ids that have not been given out
  refine ⟨Nat.lt_of_lt_of_le hover.1 h.calls_le, ?_⟩
  intro a ha
  rcases h.mem_attempts ha with ha | ⟨⟨b, hb, hid⟩ | ⟨hid, -⟩, -⟩
  · exact hover.2 a ha
  · exact hid ▸ hover.2 b hb
  · exact hid ▸ (Nat.ne_of_lt hover.1).symm

/-- An attempt that is over removes nothing. -/
lemma not_discarded_of_isOver (h : s.IsOver id) (es : List Event) (package : String) :
    .discarded id package ∉ (run s es).2 := by
  have hrun := run_invariant
    (fun s past => s.IsOver id ∧ .discarded id package ∉ past)
    (fun s past e r s' effects h hmove => by
      refine ⟨hmove.isOver h.1, fun hmem => ?_⟩
      rcases List.mem_append.mp hmem with hmem | hmem
      · exact h.2 hmem
      · rcases hmove.removal hmem rfl with ⟨a, ha, p, e, hphase, heq⟩ | ⟨-, p, heq⟩
        · cases heq
          exact h.1.2 a ha rfl
        · cases heq)
    s [] ⟨h, List.not_mem_nil⟩ es
  exact hrun.2

lemma returned_ne_accepted (a : Attempt) (result : Except Fault Unit) (package : String) :
    returned a result ≠ .accepted id package :=
  returned_cases a result (fun _ => nofun) fun _ => nofun

/-- A package is accepted when its attempt is over. -/
lemma Move.accepted_of_mem (h : Move s e r s' effects) {package : String}
    (hmem : .accepted id package ∈ effects) :
    ∃ a ∈ s.attempts, a.id = id ∧ s' = s.finish id ∧
      effects = [.accepted id package, Coordinator.returned a (.ok ())] := by
  cases r with
  | some r => rcases h.report_effects hmem with hx | hx <;> cases hx
  | none =>
    cases h with
    | crashed a p reason e ha hphase =>
      exact absurd (List.mem_singleton.mp hmem).symm (returned_ne_accepted a _ package)
    | accepted a p ha hphase =>
      rcases eq_of_mem_accepted hmem with hx | hx
      · cases hx
        exact ⟨a, ha, rfl, rfl, rfl⟩
      · exact absurd hx.symm (returned_ne_accepted a _ package)
    | discarded a p e ha hphase =>
      rcases eq_of_mem_discarded hmem with hx | hx | hx
      · cases hx
      · cases hx
      · exact absurd hx.symm (returned_ne_accepted a _ package)
    | consumed k c pumps hc => rcases eq_of_mem_consumed hmem with hx | hx | hx <;> cases hx
    | _ => simp at hmem

end

end FleetAgent.Update.Coordinator
