/-
# The pending package

The coordinator remembers one package, the one that it has given to the engine last, and
forgets it when the engine refuses any package and when a completion is dispatched.  So an
accepted package is not safe until its completion: a later attempt takes its place, a later
refusal empties it, and an attempt that fails removes the file of its package although the
engine may be installing that very file.  `keeps_iff` says exactly when an accepted package is
kept; it is not always (`not_keeps`).

The pending package depends on the trace alone (`pending_run`), and the removals have causes in
the trace (`Accounted`).
-/
import FleetAgent.Archive.Writer
import FleetAgent.Proofs.Update.Coordinator.Removal
import Mathlib.Data.List.Induction

namespace FleetAgent.Update.Coordinator

/-! ## What is given last -/

/-- The pending package after an effect. -/
def Effect.slot (pending : Option String) : Effect → Option String
  | called _ package _ => some package
  | refused _ _ => none
  | dispatched (.complete _) => none
  | _ => pending

/-- Whether an effect decides what the pending package is: a package is given to the engine or
refused by it, or a completion is dispatched. -/
def Effect.setsSlot : Effect → Bool
  | called _ _ _ => true
  | refused _ _ => true
  | dispatched (.complete _) => true
  | _ => false

/-- A package is given to the engine, and nothing that decides the pending package follows. -/
def GivenLast (trace : List Effect) (package : String) : Prop :=
  ∃ early id spec late, trace = early ++ .called id package spec :: late ∧
    ∀ x ∈ late, x.setsSlot = false

lemma slot_of_setsSlot_eq_false {x : Effect} (h : x.setsSlot = false) (pending : Option String) :
    x.slot pending = pending := by
  cases x with
  | called id package spec => exact absurd h (by simp [Effect.setsSlot])
  | refused id package => exact absurd h (by simp [Effect.setsSlot])
  | dispatched r =>
    cases r with
    | complete code => exact absurd h (by simp [Effect.setsSlot])
    | status state progress => rfl
  | _ => rfl

lemma slot_eq_some_iff {x : Effect} (h : x.setsSlot = true) {pending : Option String}
    {package : String} :
    x.slot pending = some package ↔ ∃ id spec, x = .called id package spec := by
  cases x with
  | called id p spec => simp [Effect.slot]
  | refused id p => simp [Effect.slot]
  | dispatched r =>
    cases r with
    | complete code => simp [Effect.slot]
    | status state progress => exact absurd h (by simp [Effect.setsSlot])
  | _ => exact absurd h (by simp [Effect.setsSlot])

lemma givenLast_concat {trace : List Effect} {x : Effect} {package : String} :
    GivenLast (trace ++ [x]) package
      ↔ (∃ id spec, x = .called id package spec) ∨ x.setsSlot = false ∧ GivenLast trace package := by
  constructor
  · rintro ⟨early, id, spec, late, htrace, hlate⟩
    rcases late.eq_nil_or_concat with rfl | ⟨late, y, rfl⟩
    · obtain ⟨-, hx⟩ := List.append_inj' htrace rfl
      exact .inl ⟨id, spec, List.singleton_inj.mp hx⟩
    · rw [List.concat_eq_append, ← List.cons_append, ← List.append_assoc] at htrace
      obtain ⟨hinit, hx⟩ := List.append_inj' htrace rfl
      rw [List.singleton_inj] at hx
      subst hx
      exact .inr ⟨hlate x (by simp), early, id, spec, late, hinit,
        fun z hz => hlate z (by simp [hz])⟩
  · rintro (⟨id, spec, rfl⟩ | ⟨hx, early, id, spec, late, rfl, hlate⟩)
    · exact ⟨trace, id, spec, [], rfl, by simp⟩
    · refine ⟨early, id, spec, late ++ [x], by simp, ?_⟩
      intro z hz
      rcases List.mem_append.mp hz with hz | hz
      · exact hlate z hz
      · rw [List.mem_singleton.mp hz]
        exact hx

/-- The pending package that a trace leads to, from none, is the one that is given last. -/
lemma foldl_slot_eq_some_iff (trace : List Effect) (package : String) :
    trace.foldl Effect.slot none = some package ↔ GivenLast trace package := by
  induction trace using List.reverseRecOn with
  | nil => simp [GivenLast]
  | append_singleton trace x ih =>
    rw [List.foldl_append, List.foldl_cons, List.foldl_nil]
    rw [givenLast_concat]
    -- only the last effect that decides the pending package matters
    cases h : x.setsSlot with
    | false =>
      have hother : ¬∃ id spec, x = .called id package spec := by
        rintro ⟨id, spec, rfl⟩
        exact absurd h (by simp [Effect.setsSlot])
      rw [slot_of_setsSlot_eq_false h, ih]
      simp [hother]
    | true =>
      rw [slot_eq_some_iff h]
      simp

/-! ## The pending package of a run -/

lemma setsSlot_returned (a : Attempt) (result : Except Fault Unit) :
    (returned a result).setsSlot = false :=
  returned_cases a result (fun _ => rfl) fun _ => rfl

lemma setsSlot_discard (folder : Storage.Folder) (package : String) {removal : Effect}
    (h : removal.setsSlot = false) : (discard folder package removal).2.setsSlot = false :=
  discard_cases folder package removal h rfl

lemma foldl_slot_restart (code : Int) (pending : Option String) :
    (restart code).foldl Effect.slot pending = pending := by
  rw [restart]
  split <;> rfl

/-- The effects of a move tell how the pending package changes. -/
lemma Move.pending {s s' : State} {e : Event} {r : Option Engine.Event} {effects : List Effect}
    (h : Move s e r s' effects) : s'.pending = effects.foldl Effect.slot s.pending := by
  cases h with
  | crashed a package reason e ha hphase =>
    rw [List.foldl_cons, List.foldl_nil,
      slot_of_setsSlot_eq_false (setsSlot_returned a (.error e))]
    rfl
  | accepted a package ha hphase =>
    rw [List.foldl_cons, List.foldl_cons, List.foldl_nil,
      slot_of_setsSlot_eq_false (setsSlot_returned a (.ok ()))]
    rfl
  | discarded a package e ha hphase =>
    rw [List.foldl_cons, List.foldl_cons, List.foldl_nil,
      slot_of_setsSlot_eq_false (setsSlot_returned a (.error e)),
      slot_of_setsSlot_eq_false (setsSlot_discard s.folder package rfl)]
    rfl
  | status e state progress pumps hcaller =>
    dsimp only
    split <;> rfl
  | completed e code pumps hcaller hpending =>
    rw [List.foldl_cons, foldl_slot_restart]
    exact hpending
  | consumed k c pumps hc =>
    rw [List.foldl_cons, foldl_slot_restart,
      slot_of_setsSlot_eq_false (setsSlot_discard s.folder c.package rfl)]
  | _ => rfl

/-- The pending package of a run depends on its effects alone. -/
lemma pending_run (folder : Storage.Folder) (es : List Event) (package : String) :
    (run (.initial folder) es).1.pending = some package
      ↔ GivenLast (run (.initial folder) es).2 package := by
  have hrun := run_invariant (fun s past => s.pending = past.foldl Effect.slot none)
    (fun s past e r s' effects h hmove => by rw [List.foldl_append, ← h, hmove.pending])
    (.initial folder) [] rfl es
  rw [hrun, List.nil_append, foldl_slot_eq_some_iff]

/-! ## Accepted packages -/

/-- Whether an effect removes the file of a package. -/
def Effect.removes (package : String) : Effect → Bool
  | discarded _ p => p == package
  | consumed p => p == package
  | _ => false

/-- The coordinator keeps a package: it is the pending one, so that a completion deletes it, and
its file has not been removed in the later part of the trace. -/
def Keeps (s : State) (later : List Effect) (package : String) : Prop :=
  s.pending = some package ∧ ∀ x ∈ later, x.removes package = false

/-- Another attempt at a package fails in a trace, and in the later part of it the file of the
package is removed for that attempt. -/
def LostToAttempt (trace later : List Effect) (id : Nat) (package : String) : Prop :=
  ∃ other ≠ id, (.refused other package ∈ trace ∨ .unusable other package ∈ trace) ∧
    .discarded other package ∈ later

/-- A completion is dispatched in the earlier part of a trace, and in the later part of it the
file of a package is removed for a completion. -/
def LostToCompletion (earlier later : List Effect) (package : String) : Prop :=
  (∃ code, .dispatched (.complete code) ∈ earlier) ∧ .consumed package ∈ later

lemma removes_eq_true_iff {x : Effect} {package : String} :
    x.removes package = true ↔ (∃ id, x = .discarded id package) ∨ x = .consumed package := by
  cases x <;> simp [Effect.removes]

/-- The attempt whose package is accepted removes nothing afterwards. -/
lemma not_discarded_of_accepted {folder : Storage.Folder} {es : List Event}
    {before after : List Effect} {id : Nat} {package : String}
    (hrun : (run (.initial folder) es).2 = before ++ .accepted id package :: after)
    (other : String) : .discarded id other ∉ after := by
  obtain ⟨early, e, late, front, rest, -, hstep, rfl⟩ := exists_step_of_run hrun
  have hlt := ((Accounted.initial folder).run early).lt_calls
  obtain ⟨a, ha, rfl, hfinish, heffects⟩ :=
    (step_move _ e).accepted_of_mem (hstep ▸ List.mem_append_right front List.mem_cons_self)
  have hover : (step (run (.initial folder) early).1 e).1.IsOver a.id := by
    rw [hfinish]
    exact ⟨hlt a ha, fun b hb => (mem_finish.mp hb).2⟩
  intro hmem
  rcases List.mem_append.mp hmem with hmem | hmem
  · have hremoval : .discarded a.id other ∈ (step (run (.initial folder) early).1 e).2 := by
      rw [hstep]
      exact List.mem_append_right front (List.mem_cons_of_mem _ hmem)
    rw [heffects] at hremoval
    simp only [List.mem_cons, reduceCtorEq, List.not_mem_nil, or_false, false_or] at hremoval
    have hreturned := isRemoval_returned a (.ok ())
    rw [← hremoval] at hreturned
    cases hreturned
  · exact not_discarded_of_isOver hover late other hmem

/-- **When an accepted package is kept.**  Let the engine accept a package, and let no completion
be dispatched since.  The package is pending and its file is still there, as far as the
coordinator is concerned, exactly when it is the package that was given to the engine last and
nothing has been refused since, its file has not been removed for another attempt at it that has
failed, and it has not been removed for a completion from before. -/
theorem keeps_iff {folder : Storage.Folder} {es : List Event} {before after : List Effect}
    {id : Nat} {package : String}
    (hrun : (run (.initial folder) es).2 = before ++ .accepted id package :: after)
    (hopen : ∀ code, .dispatched (.complete code) ∉ after) :
    Keeps (run (.initial folder) es).1 after package ↔
      GivenLast (run (.initial folder) es).2 package ∧
        ¬LostToAttempt (run (.initial folder) es).2 after id package ∧
        ¬LostToCompletion before after package := by
  have hpast := (Accounted.initial folder).run es
  rw [List.nil_append] at hpast
  rw [Keeps, pending_run]
  constructor
  · rintro ⟨hgiven, hkept⟩
    refine ⟨hgiven, ?_, ?_⟩
    · rintro ⟨other, -, -, hmem⟩
      exact absurd (hkept _ hmem) (by simp [Effect.removes])
    · rintro ⟨-, hmem⟩
      exact absurd (hkept _ hmem) (by simp [Effect.removes])
  · rintro ⟨hgiven, hattempt, hcompletion⟩
    refine ⟨hgiven, fun x hx => Bool.eq_false_iff.mpr fun hremoves => ?_⟩
    have hmem {y : Effect} (hy : y ∈ after) : y ∈ (run (.initial folder) es).2 := by
      rw [hrun]
      exact List.mem_append_right before (List.mem_cons_of_mem _ hy)
    -- a removal has a cause in the trace, and each cause is ruled out
    rcases removes_eq_true_iff.mp hremoves with ⟨other, rfl⟩ | rfl
    · have hother : other ≠ id := by
        rintro rfl
        exact not_discarded_of_accepted hrun package hx
      exact hattempt ⟨other, hother, hpast.failed other package (hmem hx), hx⟩
    · obtain ⟨code, hcode⟩ := hpast.completed package (hmem hx)
      rw [hrun] at hcode
      rcases List.mem_append.mp hcode with hbefore | hafter
      · exact hcompletion ⟨⟨code, hbefore⟩, hx⟩
      · rcases List.mem_cons.mp hafter with hsame | hafter
        · cases hsame
        · exact hopen code hafter

/-- A folder with two packages, whose payload is three bytes long. -/
def sampleFolder : Storage.Folder :=
  let archive := Archive.archiveOf
    [Archive.Member.stored (Text.Utf8.encode Payload.payloadName) [1, 2, 3]]
  ⟨"/data", [(["ota.zip"], .file archive), (["new.zip"], .file archive)]⟩

/-- The payload of a sample package. -/
def sampleSpec (sourceUri : String) : PayloadSpec :=
  ⟨sourceUri, 41, 3, ["SWITCH_SLOT_ON_REBOOT=1"]⟩

lemma specAt_ota : specAt sampleFolder "ota.zip" = .ok (sampleSpec "file:///data/ota.zip") := by
  decide +kernel

lemma specAt_new : specAt sampleFolder "new.zip" = .ok (sampleSpec "file:///data/new.zip") := by
  decide +kernel

lemma resolveEntry_new : sampleFolder.resolveEntry "new.zip" = .ok ["new.zip"] := by
  decide +kernel

/-- A request to apply a package that the engine accepts. -/
lemma run_accepted :
    run (.initial sampleFolder) (applyEvents 0 "ota.zip" (.ok ()))
      = ({ State.initial sampleFolder with pending := some "ota.zip", calls := 1 },
        [.called 0 "ota.zip" (sampleSpec "file:///data/ota.zip"), .accepted 0 "ota.zip",
          .applied 0 (.ok ())]) := by
  simp [applyEvents, run, step, onApply, onExtracted, onAnswered, returned, State.initial,
    State.attempt?, State.advance, State.finish, specAt_ota]

/-- A request to apply another package, which the engine refuses. -/
lemma run_refused :
    run { State.initial sampleFolder with pending := some "ota.zip", calls := 1 }
        (applyEvents 1 "new.zip" (.error (.engine "busy")))
      = ({ State.initial sampleFolder with
            calls := 2
            folder := sampleFolder.remove ["new.zip"] },
        [.called 1 "new.zip" (sampleSpec "file:///data/new.zip"), .refused 1 "new.zip",
          .discarded 1 "new.zip", .applied 1 (.error (.engine "busy"))]) := by
  simp [applyEvents, run, step, onApply, onExtracted, onAnswered, onDiscarded, discard, returned,
    State.initial, State.attempt?, State.advance, State.finish, specAt_new, resolveEntry_new]

/-- A package that has just been accepted is kept. -/
theorem keeps_sample :
    (run (.initial sampleFolder) (applyEvents 0 "ota.zip" (.ok ()))).2
        = [.called 0 "ota.zip" (sampleSpec "file:///data/ota.zip")]
          ++ .accepted 0 "ota.zip" :: [.applied 0 (.ok ())] ∧
      (∀ code, Effect.dispatched (.complete code) ∉ [.applied 0 (.ok ())]) ∧
      Keeps (run (.initial sampleFolder) (applyEvents 0 "ota.zip" (.ok ()))).1
        [.applied 0 (.ok ())] "ota.zip" := by
  have hrun : (run (.initial sampleFolder) (applyEvents 0 "ota.zip" (.ok ()))).2
      = [.called 0 "ota.zip" (sampleSpec "file:///data/ota.zip")]
        ++ .accepted 0 "ota.zip" :: [.applied 0 (.ok ())] := by
    rw [run_accepted]
    rfl
  have hopen : ∀ code, Effect.dispatched (.complete code) ∉ [.applied 0 (.ok ())] := by simp
  refine ⟨hrun, hopen, (keeps_iff hrun hopen).mpr ⟨?_, ?_, ?_⟩⟩
  · rw [hrun]
    exact ⟨[], 0, _, _, rfl, by simp [Effect.setsSlot]⟩
  · rintro ⟨other, -, -, hmem⟩
    simp at hmem
  · rintro ⟨-, hmem⟩
    simp at hmem

/-- **An accepted package is not always kept.**  A request to apply another one, which the engine
refuses because it is busy, makes the coordinator forget it, so that its completion does not
delete it. -/
theorem not_keeps :
    ¬∀ (folder : Storage.Folder) (es : List Event) (before after : List Effect) (id : Nat)
      (package : String),
      (run (.initial folder) es).2 = before ++ .accepted id package :: after →
      (∀ code, .dispatched (.complete code) ∉ after) →
      Keeps (run (.initial folder) es).1 after package := by
  intro hkeeps
  have hrun : run (.initial sampleFolder) (applyEvents 0 "ota.zip" (.ok ())
        ++ applyEvents 1 "new.zip" (.error (.engine "busy")))
      = ({ State.initial sampleFolder with
            calls := 2
            folder := sampleFolder.remove ["new.zip"] },
        [.called 0 "ota.zip" (sampleSpec "file:///data/ota.zip")] ++ .accepted 0 "ota.zip" ::
          [.applied 0 (.ok ()), .called 1 "new.zip" (sampleSpec "file:///data/new.zip"),
            .refused 1 "new.zip", .discarded 1 "new.zip",
            .applied 1 (.error (.engine "busy"))]) := by
    rw [run_append, run_accepted, run_refused]
    rfl
  obtain ⟨hpending, -⟩ := hkeeps _ _ _ _ _ _ (congrArg Prod.snd hrun) (by simp)
  rw [hrun] at hpending
  cases hpending

end FleetAgent.Update.Coordinator
