/-
# What becomes of packages

A package whose payload the engine is given becomes the pending one, and it is deleted when the
engine reports a completion.  Completions and calls come in any order, and a completion may come
while the engine has not answered yet.

A completion takes the pending package (`Takes`), and only later its file is removed; the packages
that have been taken are the ones that have been removed for completions and the ones that still
are to be (`perm_taken`), so nothing is removed twice and nothing is forgotten.  No other file is
touched but the package of a call that has failed (`FolderAfter`).  What the engine is given has
been found in the content of the package's file (`hasPayload_of_called`).  With the course of each
call this is the whole story (`slot_run`).
-/
import FleetAgent.Proofs.Update.Coordinator.Course
import FleetAgent.Proofs.Update.Coordinator.Pending
import Mathlib.Data.List.InsertIdx
import Mathlib.Data.List.Perm.Basic

namespace FleetAgent.Update.Coordinator

/-! ## Files -/

/-- The files after a step.  They are as before it unless the package of a failed call or that of a
completion is removed, or somebody else changes a file. -/
def FolderAfter (s : State) (folder : Storage.Folder) : Event → Prop
  | .discarded id =>
    match s.attempt? id with
    | some ⟨_, _, .discarding package _⟩ => IsWithout s.folder folder package
    | _ => folder = s.folder
  | .consumed k =>
    match s.completions[k]? with
    | some c => IsWithout s.folder folder c.package
    | none => folder = s.folder
  | .written path content => folder = s.folder.put path (.file content)
  | .removed path => folder = s.folder.remove path
  | _ => folder = s.folder

lemma folder_suspend (s : State) (pump : Option Nat) : (s.suspend pump).folder = s.folder := by
  obtain ⟨pumps, h⟩ := exists_suspend s pump
  rw [h]

lemma folder_resume (s : State) (pump : Option Nat) : (s.resume pump).folder = s.folder := by
  obtain ⟨pumps, h⟩ := exists_resume s pump
  rw [h]

lemma folder_dispatch (s : State) (pump : Option Nat) (r : Engine.Event) :
    (dispatch s pump r).1.folder = s.folder := by
  cases r with
  | status state progress =>
    rw [dispatch, onStatus]
    dsimp only
    split
    · exact folder_suspend _ pump
    · rfl
  | complete code =>
    rw [dispatch, onComplete]
    dsimp only
    split
    · exact folder_suspend s pump
    · dsimp only
      split
      · exact folder_suspend s pump
      · rfl

lemma folderAfter_step (s : State) (e : Event) : FolderAfter s (step s e).1.folder e := by
  cases e with
  | check =>
    simp only [FolderAfter, step, onCheck]
    split <;> rfl
  | apply package => rfl
  | looked id =>
    simp only [FolderAfter, step, onLooked]
    repeat' split
    all_goals rfl
  | fetched id answer =>
    simp only [FolderAfter, step]
    split
    · rcases answer with fault | _ | package
      all_goals rfl
    · rfl
  | extracted id =>
    simp only [FolderAfter, step, onExtracted]
    repeat' split
    all_goals rfl
  | crashed id reason =>
    simp only [FolderAfter, step, onCrashed]
    split <;> rfl
  | answered id answer =>
    simp only [FolderAfter, step]
    split
    · cases answer <;> rfl
    · rfl
  | discarded id =>
    simp only [FolderAfter, step]
    rcases s.attempt? id with _ | ⟨i, isCheck, phase⟩
    · rfl
    · cases phase with
      | discarding package fault => exact isWithout_discard s.folder package _
      | _ => rfl
  | consumed k =>
    simp only [FolderAfter, step, onConsumed]
    cases hc : s.completions[k]? with
    | none => rfl
    | some c =>
      dsimp only
      split
      · exact isWithout_discard s.folder c.package _
      · rw [folder_resume]
        exact isWithout_discard s.folder c.package _
  | report r => exact folder_dispatch s none r
  | bound answer => cases answer <;> rfl
  | emitted k r => rfl
  | pumped k =>
    simp only [FolderAfter, step, onPumped]
    split
    · exact folder_dispatch _ (some k) _
    · rfl
  | restarted pump answer => exact folder_resume s pump
  | written path content => rfl
  | removed path => rfl

/-! ## Completions -/

/-- The packages whose files are to be removed for completions. -/
def State.toRemove (s : State) : List String :=
  s.completions.map Completion.package

/-- The packages that a step takes for a completion: the pending one, if there is one. -/
def State.taken (s : State) (e : Event) : List String :=
  match s.delivery? e with
  | some (.complete _) => s.pending.toList
  | _ => []

/-- The packages whose removal for a completion ends with a step. -/
def State.cleared (s : State) : Event → List String
  | .consumed k => s.completions[k]?.toList.map Completion.package
  | _ => []

/-- A step delivers a completion.  Nothing is pending afterwards, and what was pending is to be
removed; if nothing was, the completion is over. -/
structure Takes (s : State) (e : Event) (code : Int) : Prop where
  pending_eq : (step s e).1.pending = none
  toRemove_eq : (step s e).1.toRemove = s.toRemove ++ s.pending.toList
  effects_eq : (step s e).2
    = .dispatched (.complete code) :: if s.pending.isSome then [] else restart code

/-- A step ends the removal for a completion, which goes on whether there was a file or not. -/
structure Clears (s : State) (k : Nat) (c : Completion) : Prop where
  pending_eq : (step s (.consumed k)).1.pending = s.pending
  toRemove_eq : (step s (.consumed k)).1.toRemove = s.toRemove.eraseIdx k
  effects_eq : ∃ removal, (removal = .consumed c.package ∨ removal = .missing c.package) ∧
    (step s (.consumed k)).2 = removal :: restart c.code

lemma Move.takes {s s' : State} {e : Event} {code : Int} {effects : List Effect}
    (h : Move s e (some (.complete code)) s' effects) :
    s'.pending = none ∧ s'.toRemove = s.toRemove ++ s.pending.toList ∧
      effects = .dispatched (.complete code) :: if s.pending.isSome then [] else restart code := by
  cases h with
  | completing _ _ package pump pumps hcaller hpending => simp [State.toRemove, hpending]
  | completed _ _ pumps hcaller hpending => simp [State.toRemove, hpending]

lemma takes_of_delivery? {s : State} {e : Event} {code : Int}
    (h : s.delivery? e = some (.complete code)) : Takes s e code := by
  have hmove := step_move s e
  rw [h] at hmove
  obtain ⟨hpending, hremove, heffects⟩ := hmove.takes
  exact ⟨hpending, hremove, heffects⟩

lemma step_consumed {s : State} {k : Nat} {c : Completion} (hc : s.completions[k]? = some c) :
    ∃ pumps, step s (.consumed k)
      = ({ s with
            completions := s.completions.eraseIdx k
            folder := (discard s.folder c.package (.consumed c.package)).1
            pumps := pumps },
        (discard s.folder c.package (.consumed c.package)).2 :: restart c.code) := by
  simp only [step, onConsumed, hc]
  split
  · exact ⟨s.pumps, rfl⟩
  · obtain ⟨pumps, hresume⟩ := exists_resume
      { s with
        completions := s.completions.eraseIdx k
        folder := (discard s.folder c.package (.consumed c.package)).1 } c.pump
    exact ⟨pumps, by rw [hresume]⟩

lemma clears_of_getElem? {s : State} {k : Nat} {c : Completion}
    (hc : s.completions[k]? = some c) : Clears s k c := by
  obtain ⟨pumps, hstep⟩ := step_consumed hc
  refine ⟨by rw [hstep], ?_, _, discard_eq s.folder c.package _, by rw [hstep]⟩
  rw [hstep, State.toRemove, State.toRemove, List.eraseIdx_map]

/-- A step other than the end of a removal adds to the packages that are to be removed what it
takes. -/
lemma Move.toRemove {s s' : State} {e : Event} {r : Option Engine.Event} {effects : List Effect}
    (h : Move s e r s' effects) (hr : r = s.delivery? e) (hother : ∀ k, e ≠ .consumed k) :
    s'.toRemove = s.toRemove ++ s.taken e := by
  rw [State.taken, ← hr]
  cases h with
  | completing _ code package pump pumps hcaller hpending => simp [State.toRemove, hpending]
  | completed _ code pumps hcaller hpending => simp [State.toRemove, hpending]
  | consumed k c pumps hc => exact absurd rfl (hother k)
  | _ => exact (List.append_nil _).symm

/-- A package that a step takes waits for its removal, and leaves when that has ended. -/
lemma perm_taken_step (s : State) (e : Event) :
    (s.toRemove ++ s.taken e).Perm (s.cleared e ++ (step s e).1.toRemove) := by
  -- a step adds to the packages that wait, or it is the end of a removal
  by_cases hconsumed : ∃ k, e = .consumed k
  · obtain ⟨k, rfl⟩ := hconsumed
    rw [show s.taken (.consumed k) = [] from rfl, List.append_nil, State.cleared]
    cases hc : s.completions[k]? with
    | none => simp [step, onConsumed, hc]
    | some c =>
      obtain ⟨hk, hget⟩ := List.getElem?_eq_some_iff.mp hc
      rw [(clears_of_getElem? hc).toRemove_eq, State.toRemove, List.eraseIdx_map]
      have hperm := (List.getElem_cons_eraseIdx_perm hk).map Completion.package
      rw [hget] at hperm
      exact hperm.symm
  · have hremove := (step_move s e).toRemove rfl fun k hk => hconsumed ⟨k, hk⟩
    have hcleared : s.cleared e = [] := by
      cases e with
      | consumed k => exact absurd ⟨k, rfl⟩ hconsumed
      | _ => rfl
    rw [hremove, hcleared, List.nil_append]

/-- What a run takes for completions is removed once, or its removal has not ended yet. -/
lemma perm_taken (s : State) (es : List Event) :
    (s.toRemove ++ (steps s es).flatMap fun x => x.1.taken x.2).Perm
      (((steps s es).flatMap fun x => x.1.cleared x.2) ++ (run s es).1.toRemove) := by
  induction es generalizing s with
  | nil => simp [steps]
  | cons e es ih =>
    rw [steps_cons, List.flatMap_cons, List.flatMap_cons, run_cons]
    have hfirst := (perm_taken_step s e).append_right
      ((steps (step s e).1 es).flatMap fun x => x.1.taken x.2)
    have hrest := (ih (step s e).1).append_left (s.cleared e)
    rw [List.append_assoc, List.append_assoc] at hfirst
    rw [List.append_assoc]
    exact hfirst.trans hrest

/-- Nothing is pending until the engine is given a payload. -/
lemma pending_eq_none_of_run {s : State} {es : List Event} (hnone : s.pending = none)
    (hcalls : ∀ id package spec, .called id package spec ∉ (run s es).2) :
    (run s es).1.pending = none := by
  have hrun := run_invariant (fun t past => t.pending = past.foldl Effect.slot none)
    (fun t past e r t' effects h hmove => by rw [List.foldl_append, ← h, hmove.pending])
    s [] hnone es
  rw [hrun, List.nil_append]
  refine Option.eq_none_iff_forall_ne_some.mpr fun package hpending => ?_
  obtain ⟨early, id, spec, late, htrace, -⟩ := (foldl_slot_eq_some_iff _ package).mp hpending
  exact hcalls id package spec (htrace ▸ List.mem_append_right early List.mem_cons_self)

/-! ## Payloads -/

section

variable {folder : Storage.Folder} {package : String} {path : Storage.Path}
  {archive : List UInt8} {spec : PayloadSpec} {id : Nat}

/-- What is looked for in a package is looked for in the content of its file. -/
lemma specAt_of_content? (hpackage : package ≠ Storage.Folder.nullDevice)
    (hpath : folder.resolve package = .ok path) (hcontent : folder.content? path = some archive) :
    specAt folder package = Payload.specOf (folder.pathText path) archive := by
  have hread : folder.read package = .ok archive := by
    simp only [Storage.Folder.read, if_neg hpackage, hpath, hcontent]
  simp only [specAt, hpath, hread]

/-- A package has a file with the payload, at the path that it names. -/
def HasPayload (folder : Storage.Folder) (package : String) (spec : PayloadSpec) : Prop :=
  ∃ path archive, folder.resolve package = .ok path ∧ folder.content? path = some archive ∧
    Payload.specOf (folder.pathText path) archive = .ok spec

lemma hasPayload_of_specAt (h : specAt folder package = .ok spec) :
    HasPayload folder package spec := by
  -- nothing is found in the device, which reads as an empty file
  have hpackage : package ≠ Storage.Folder.nullDevice := by
    rintro rfl
    rw [specAt, Storage.Folder.read, if_pos rfl] at h
    split at h
    · next path bytes hpath hread =>
      obtain rfl := Except.ok.inj hread
      cases h
    · cases h
    · cases h
  cases hpath : folder.resolve package with
  | error e =>
    rw [specAt, hpath] at h
    cases h
  | ok path =>
    cases hcontent : folder.content? path with
    | none =>
      simp only [specAt, Storage.Folder.read, if_neg hpackage, hpath, hcontent] at h
      cases h
    | some archive =>
      rw [specAt_of_content? hpackage hpath hcontent] at h
      exact ⟨path, archive, hpath, hcontent, h⟩

lemma returned_ne_called (a : Attempt) (result : Except Fault Unit) :
    returned a result ≠ .called id package spec :=
  returned_cases a result (fun _ => nofun) fun _ => nofun

lemma Move.specAt_of_called {s s' : State} {e : Event} {r : Option Engine.Event}
    {effects : List Effect} (h : Move s e r s' effects)
    (hmem : .called id package spec ∈ effects) : specAt s.folder package = .ok spec := by
  cases r with
  | some r => rcases h.report_effects hmem with hx | hx <;> cases hx
  | none =>
    cases h with
    | called a p found ha hphase hspec =>
      cases List.mem_singleton.mp hmem
      exact hspec
    | crashed a p reason e ha hphase =>
      exact absurd (List.mem_singleton.mp hmem).symm (returned_ne_called a _)
    | accepted a p ha hphase =>
      rcases eq_of_mem_accepted hmem with hx | hx
      · cases hx
      · exact absurd hx.symm (returned_ne_called a _)
    | discarded a p e ha hphase =>
      rcases eq_of_mem_discarded hmem with hx | hx | hx
      · cases hx
      · cases hx
      · exact absurd hx.symm (returned_ne_called a _)
    | consumed k c pumps hc => rcases eq_of_mem_consumed hmem with hx | hx | hx <;> cases hx
    | _ => simp at hmem

/-- **The engine is given what is found.**  Every payload that the engine is given in a run has
been found in the content that the file of its package had at that step. -/
theorem hasPayload_of_called (folder : Storage.Folder) (es : List Event)
    (h : .called id package spec ∈ (run (.initial folder) es).2) :
    ∃ early e late, es = early ++ e :: late ∧
      HasPayload (run (.initial folder) early).1.folder package spec := by
  obtain ⟨before, after, htrace⟩ := List.append_of_mem h
  obtain ⟨early, e, late, front, rest, hes, hstep, -⟩ := exists_step_of_run htrace
  have hmem : .called id package spec ∈ (step (run (.initial folder) early).1 e).2 := by
    rw [hstep]
    exact List.mem_append_right front List.mem_cons_self
  exact ⟨early, e, late, hes, hasPayload_of_specAt ((step_move _ e).specAt_of_called hmem)⟩

end

/-! ## The whole story -/

/-- **What becomes of packages.**  In every run, calls and completions in any order:

* A package is pending exactly when its payload was given to the engine, and the engine has not been
  given another one, nor refused one, nor has a completion been dispatched since.
* A completion takes the pending package, if there is one (`Takes`); until the engine is given
  another one, the next completion finds none.  The removal ends in a step of its own (`Clears`).
  All in all, the packages that have been taken are those that have been removed for completions and
  those that are still to be removed.
* No other file is touched, except by somebody else or for a call that has failed
  (`FolderAfter`), whether a file to be removed is there or not.
* Every call takes its course (`Course`), and nothing is done for it otherwise.  If no payload is
  found, the engine is not called, the pending package stays, and the call's own package is removed;
  if the engine refuses, the package is removed as well, and the error of the engine is returned; if
  the engine accepts, it has been called once, with the payload found in the package.  A search that
  is broken off says nothing about the package: the engine is not called, and nothing is removed. -/
theorem slot_run (folder : Storage.Folder) (es : List Event) :
    (∀ package, (run (.initial folder) es).1.pending = some package
      ↔ GivenLast (run (.initial folder) es).2 package) ∧
    (∀ x ∈ steps (.initial folder) es,
      (∀ code, x.1.delivery? x.2 = some (.complete code) → Takes x.1 x.2 code) ∧
      (∀ k c, x.2 = .consumed k → x.1.completions[k]? = some c → Clears x.1 k c) ∧
      FolderAfter x.1 (step x.1 x.2).1.folder x.2) ∧
    (∀ early e late code, es = early ++ e :: late →
      (run (.initial folder) early).1.delivery? e = some (.complete code) →
      (∀ id package spec,
        .called id package spec ∉ (run (step (run (.initial folder) early).1 e).1 late).2) →
      (run (.initial folder) es).1.pending = none) ∧
    ((steps (.initial folder) es).flatMap fun x => x.1.taken x.2).Perm
      (((steps (.initial folder) es).flatMap fun x => x.1.cleared x.2)
        ++ (run (.initial folder) es).1.toRemove) ∧
    ∀ id, Course id ((run (.initial folder) es).1.attempt? id) (stepsOf id (.initial folder) es) ∧
      effectsOf id (run (.initial folder) es).2
        = (stepsOf id (.initial folder) es).flatMap fun x => effectsOf id (step x.1 x.2).2 := by
  refine ⟨pending_run folder es, ?_, ?_, perm_taken (.initial folder) es, fun id => ?_⟩
  · intro x _
    refine ⟨fun code hcode => takes_of_delivery? hcode, ?_, folderAfter_step x.1 x.2⟩
    intro k c _ hc
    exact clears_of_getElem? hc
  · rintro early e late code rfl hcode hcalls
    rw [run_append, run_cons]
    exact pending_eq_none_of_run (takes_of_delivery? hcode).pending_eq hcalls
  · exact ⟨course_run folder es id, effectsOf_run id (.initial folder) es⟩

/-- The package that the engine has been given is pending until a completion is reported, and its
file is there until the removal has ended. -/
example :
    let request := [.apply "ota.zip", .extracted 0, .report (.complete 0)]
    let calls := fun es => (run (.initial sampleFolder) es).2.countP fun x =>
      x matches .called 0 "ota.zip" ⟨"file:///data/ota.zip", 41, 3, ["SWITCH_SLOT_ON_REBOOT=1"]⟩
    let state := fun es => (run (.initial sampleFolder) es).1
    calls request = 1 ∧
      (state (request.take 2)).pending = some "ota.zip" ∧ (state request).pending = none ∧
      (state request).folder.get? ["ota.zip"] ≠ none ∧
      (state (request ++ [.answered 0 (.ok ()), .consumed 0])).folder.get? ["ota.zip"] = none := by
  decide +kernel

end FleetAgent.Update.Coordinator
