/-
# Waiting at a gate

Releases, new waiters and polls may come in any row, as long as every waiter is polled for the first
time after those that came before it (`Gate.InOrder`).  While releases are missing, whoever has been
polled sleeps, and the others are still to be polled (`Gate.Shut`).  The last release wakes the
waiter that sleeps longest, which is the one that came first.  From then on nobody else that slept
is ever woken, and everybody who is polled for the first time passes (`Gate.Opened`).  A notice that
is kept because nobody sleeps is never heard: whoever looks at an open gate does not go on to
listen.

Each event keeps the one description or leads from the first to the second, so one of them holds
after every row of events (`Gate.shut_or_opened`).
-/
import FleetAgent.Proofs.Shell.Session
import Mathlib.Data.List.Induction

namespace FleetAgent.Shell.Gate

/-! ## Polls -/

/-- A waiter that is polled looks, and listens if it has seen that releases are missing; with the
notice that is kept after that. -/
def pollWaiter (remaining : Nat) (noticed : Bool) (w : Waiter) : Bool × Waiter :=
  if look remaining w = .listening then (false, if noticed then .looking else .asleep)
  else (noticed, look remaining w)

/-- Polls the waiter that came as the `i`-th, if there is one. -/
def poll (g : Gate) (i : Nat) : Gate :=
  match g.waiters[i]? with
  | some w =>
    { g with
      noticed := (pollWaiter g.remaining g.noticed w).1
      waiters := g.waiters.set i (pollWaiter g.remaining g.noticed w).2 }
  | none => g

variable {g : Gate} {i j n : Nat}

lemma poll_append (remaining : Nat) (noticed : Bool) (front back : List Waiter) (w : Waiter) :
    poll ⟨remaining, noticed, front ++ w :: back⟩ front.length
      = ⟨remaining, (pollWaiter remaining noticed w).1,
          front ++ (pollWaiter remaining noticed w).2 :: back⟩ := by
  have hw : (front ++ w :: back)[front.length]? = some w := by simp
  simp only [poll, hw, List.set_append_right _ _ (Nat.le_refl _), Nat.sub_self, List.set_cons_zero]

lemma listen_look (remaining : Nat) (noticed : Bool) (w : Waiter) (ws : List Waiter) :
    listen noticed ((w :: ws).map (look remaining))
      = ((listen (pollWaiter remaining noticed w).1 (ws.map (look remaining))).1,
          (pollWaiter remaining noticed w).2
            :: (listen (pollWaiter remaining noticed w).1 (ws.map (look remaining))).2) := by
  rw [List.map_cons, listen, pollWaiter]
  split <;> rfl

/-- Polling the waiters behind some others one after another. -/
lemma foldl_poll (remaining : Nat) (noticed : Bool) (front back : List Waiter) :
    (List.range' front.length back.length).foldl poll ⟨remaining, noticed, front ++ back⟩
      = ⟨remaining, (listen noticed (back.map (look remaining))).1,
          front ++ (listen noticed (back.map (look remaining))).2⟩ := by
  induction back generalizing front noticed with
  | nil => rfl
  | cons w back ih =>
    have hrest := ih (pollWaiter remaining noticed w).1
      (front ++ [(pollWaiter remaining noticed w).2])
    rw [List.length_append, List.length_singleton, List.append_assoc, List.append_assoc,
      List.singleton_append, List.singleton_append] at hrest
    rw [List.length_cons, List.range'_succ, List.foldl_cons, poll_append, hrest, listen_look]

/-! ## Runs -/

/-- What can happen at a gate. -/
inductive Event where
  | release
  | wait
  /-- The waiter that came as the `i`-th is polled. -/
  | poll (i : Nat)
deriving DecidableEq, Repr

/-- The gate after an event. -/
def handle (g : Gate) : Event → Gate
  | .release => g.release
  | .wait => g.wait
  | .poll i => g.poll i

/-- The gate after a row of events. -/
def run (g : Gate) (events : List Event) : Gate :=
  events.foldl handle g

/-- A waiter may be polled when it has come, and when those before it have been polled. -/
def Event.IsDue (past : List Event) : Event → Prop
  | .poll i => i < past.count .wait ∧ ∀ j < i, .poll j ∈ past
  | _ => True

instance (past : List Event) : DecidablePred (Event.IsDue past)
  | .release => inferInstanceAs (Decidable True)
  | .wait => inferInstanceAs (Decidable True)
  | .poll i => inferInstanceAs (Decidable (i < past.count .wait ∧ ∀ j < i, .poll j ∈ past))

/-- Waiters are polled in the order in which they came. -/
def InOrder (events : List Event) : Prop :=
  ∀ k (h : k < events.length), events[k].IsDue (events.take k)

instance : DecidablePred InOrder := fun events =>
  inferInstanceAs (Decidable (∀ k (h : k < events.length), events[k].IsDue (events.take k)))

variable {events before later : List Event} {e : Event}

lemma InOrder.front (h : InOrder (events ++ later)) : InOrder events := by
  intro k hk
  have hdue := h k (by rw [List.length_append]; omega)
  rwa [List.getElem_append_left hk, List.take_append_of_le_length (Nat.le_of_lt hk)] at hdue

lemma InOrder.isDue (h : InOrder (events ++ e :: later)) : e.IsDue events := by
  have hdue := h events.length (by simp)
  rwa [List.getElem_append_right (Nat.le_refl _), List.take_left' rfl, getElem_congr_idx
    (Nat.sub_self _)] at hdue

/-- If anybody has been polled, the first waiter has. -/
lemma InOrder.first_mem (h : InOrder events) (hi : .poll i ∈ events) : .poll 0 ∈ events := by
  obtain ⟨before, later, rfl⟩ := List.append_of_mem hi
  rcases Nat.eq_zero_or_pos i with rfl | hpos
  · exact hi
  · exact List.mem_append_left _ (h.isDue.2 0 hpos)

/-- Who has been polled has come. -/
lemma InOrder.lt_count (h : InOrder events) (hi : .poll i ∈ events) : i < events.count .wait := by
  obtain ⟨before, later, rfl⟩ := List.append_of_mem hi
  rw [List.count_append]
  exact Nat.lt_add_right _ h.isDue.1

lemma count_wait_concat (h : e ≠ .wait) : (events ++ [e]).count .wait = events.count .wait := by
  rw [List.count_append, List.count_singleton, beq_false_of_ne h]
  rfl

lemma run_concat (g : Gate) (events : List Event) (e : Event) :
    g.run (events ++ [e]) = (g.run events).handle e :=
  List.foldl_concat ..

lemma run_append (g : Gate) (events later : List Event) :
    g.run (events ++ later) = (g.run events).run later :=
  List.foldl_append

/-- **Polling all waiters** is polling one after another, in the order in which they came. -/
theorem pollAll_eq_run (g : Gate) :
    g.pollAll = g.run ((List.range g.waiters.length).map .poll) := by
  rw [run, List.foldl_map, List.range_eq_range']
  exact (foldl_poll g.remaining g.noticed [] g.waiters).symm

/-! ## Steps -/

variable {count : Nat} {f f' : Nat → Waiter}

/-- A new waiter comes behind the others. -/
lemma waiters_wait (h : g.waiters = (List.range count).map f) (hold : ∀ i < count, f' i = f i)
    (hnew : f' count = .looking) : g.wait.waiters = (List.range (count + 1)).map f' := by
  have hsame : (List.range count).map f' = (List.range count).map f :=
    List.map_congr_left fun i hi => hold i (List.mem_range.mp hi)
  rw [Gate.wait, h, List.range_succ, List.map_append, hsame, List.map_singleton, hnew]

/-- A poll changes the state of the waiter that is polled. -/
lemma poll_eq (h : g.waiters = (List.range count).map f) (hi : i < count)
    (hself : f' i = (pollWaiter g.remaining g.noticed (f i)).2)
    (hother : ∀ j < count, j ≠ i → f' j = f j) :
    g.poll i = ⟨g.remaining, (pollWaiter g.remaining g.noticed (f i)).1,
      (List.range count).map f'⟩ := by
  have hw : g.waiters[i]? = some (f i) := by simp [h, hi]
  have hset : ((List.range count).map f).set i (f' i) = (List.range count).map f' := by
    refine List.ext_getElem (by simp) fun j hj hj' => ?_
    rw [List.length_set, List.length_map, List.length_range] at hj
    rw [List.getElem_set]
    split
    · next hij => simp [← hij]
    · next hij => simp [hother j hj (Ne.symm hij)]
  simp only [poll, hw, ← hself]
  rw [h, hset]

lemma release_eq (g : Gate) :
    g.release = if g.remaining = 1 then notify { g with remaining := 0 }
      else { g with remaining := g.remaining - 1 } := by
  obtain ⟨remaining, noticed, waiters⟩ := g
  match remaining with
  | 0 => rfl
  | 1 => rfl
  | remaining + 2 => rfl

/-- Nobody is woken if nobody sleeps. -/
lemma wakeFirst?_of_not_mem {ws : List Waiter} (h : .asleep ∉ ws) : wakeFirst? ws = none := by
  induction ws with
  | nil => rfl
  | cons w ws ih =>
    rw [List.mem_cons, not_or] at h
    cases w with
    | asleep => exact absurd rfl h.1
    | looking | listening | finished => simp [wakeFirst?, ih h.2]

/-! ## While releases are missing -/

/-- What a waiter does at a shut gate: it sleeps if it has been polled. -/
def sleeping (events : List Event) (i : Nat) : Waiter :=
  if .poll i ∈ events then .asleep else .looking

/-- The gate is shut: releases are missing, and nobody has got beyond sleeping. -/
structure Shut (n : Nat) (events : List Event) (g : Gate) : Prop where
  pos : 0 < g.remaining
  remaining : g.remaining + events.count .release = n
  noticed : g.noticed = false
  waiters : g.waiters = (List.range (events.count .wait)).map (sleeping events)

lemma sleeping_concat {i : Nat} (h : e ≠ .poll i) :
    sleeping (events ++ [e]) i = sleeping events i := by
  simp [sleeping, h.symm]

namespace Shut

lemma initial (hn : 0 < n) : Shut n [] (ofPermits n) where
  pos := hn
  remaining := rfl
  noticed := rfl
  waiters := rfl

lemma release (h : Shut n events g) (hmore : g.remaining ≠ 1) :
    Shut n (events ++ [.release]) g.release := by
  have hpos := h.pos
  have hremaining := h.remaining
  have hsame : sleeping (events ++ [.release]) = sleeping events :=
    funext fun i => sleeping_concat nofun
  rw [release_eq, if_neg hmore]
  refine ⟨Nat.sub_pos_of_lt (by omega), ?_, h.noticed, ?_⟩
  · rw [List.count_append, List.count_singleton_self]
    dsimp only
    omega
  · rw [hsame, count_wait_concat (e := .release) nofun]
    exact h.waiters

/-- A waiter that comes has not been polled. -/
lemma wait (h : Shut n events g) (hin : InOrder events) : Shut n (events ++ [.wait]) g.wait where
  pos := h.pos
  remaining := by
    rw [List.count_append]
    exact h.remaining
  noticed := h.noticed
  waiters := by
    have hnew : .poll (events.count .wait) ∉ events := fun hmem =>
      Nat.lt_irrefl _ (hin.lt_count hmem)
    rw [List.count_append, List.count_singleton_self]
    refine waiters_wait h.waiters (fun i _ => sleeping_concat nofun) ?_
    simp [sleeping, hnew]

/-- Whoever is polled sleeps. -/
lemma poll (h : Shut n events g) (hi : i < events.count .wait) :
    Shut n (events ++ [.poll i]) (g.poll i) := by
  have hpolled : pollWaiter g.remaining g.noticed (sleeping events i) = (false, .asleep) := by
    rw [h.noticed, sleeping]
    split
    · rfl
    · simp [pollWaiter, look, Nat.ne_of_gt h.pos]
  have hself : sleeping (events ++ [.poll i]) i
      = (pollWaiter g.remaining g.noticed (sleeping events i)).2 := by
    rw [hpolled]
    simp [sleeping]
  have hpoll := poll_eq h.waiters hi hself fun j _ hj => sleeping_concat (by simp [hj.symm])
  rw [hpolled] at hpoll
  rw [hpoll]
  refine ⟨h.pos, ?_, rfl, ?_⟩
  · rw [List.count_append]
    exact h.remaining
  · rw [count_wait_concat (e := .poll i) nofun]

end Shut

/-! ## Once the gate is open -/

/-- What a waiter does at an open gate, after what came before the gate opened and what came later:
whoever slept when it opened sleeps on, apart from the first; the others pass when they are
polled. -/
def passing (before later : List Event) (i : Nat) : Waiter :=
  if i ≠ 0 ∧ .poll i ∈ before then .asleep
  else if .poll i ∈ later then .finished
  else .looking

/-- The gate is open: nothing is missing, and every waiter is passing or sleeps for ever. -/
structure Opened (before later : List Event) (g : Gate) : Prop where
  remaining : g.remaining = 0
  waiters : g.waiters = (List.range ((before ++ later).count .wait)).map (passing before later)

lemma passing_concat {i : Nat} (h : e ≠ .poll i) :
    passing before (later ++ [e]) i = passing before later i := by
  simp [passing, h.symm]

/-- Nothing is taken from an open gate. -/
lemma release_of_open (h : g.remaining = 0) : g.release = g := by
  rw [Gate.release, decrement, h]
  rfl

namespace Opened

lemma initial : Opened [] [] (ofPermits 0) where
  remaining := rfl
  waiters := rfl

lemma release (h : Opened before later g) : Opened before (later ++ [.release]) g.release := by
  have hsame : passing before (later ++ [.release]) = passing before later :=
    funext fun i => passing_concat nofun
  rw [release_of_open h.remaining]
  refine ⟨h.remaining, ?_⟩
  rw [hsame, ← List.append_assoc, count_wait_concat (e := .release) nofun]
  exact h.waiters

lemma wait (h : Opened before later g) (hin : InOrder (before ++ later)) :
    Opened before (later ++ [.wait]) g.wait where
  remaining := h.remaining
  waiters := by
    have hnew : .poll ((before ++ later).count .wait) ∉ before ++ later := fun hmem =>
      Nat.lt_irrefl _ (hin.lt_count hmem)
    rw [List.mem_append, not_or] at hnew
    rw [← List.append_assoc, List.count_append (a := Event.wait), List.count_singleton_self]
    refine waiters_wait h.waiters (fun i _ => passing_concat nofun) ?_
    rw [passing_concat (e := .wait) nofun, passing, if_neg fun hold => hnew.1 hold.2,
      if_neg hnew.2]

/-- Whoever is polled and does not sleep finishes. -/
lemma poll (h : Opened before later g) (hi : i < (before ++ later).count .wait) :
    Opened before (later ++ [.poll i]) (g.poll i) := by
  have hself : passing before (later ++ [.poll i]) i
      = (pollWaiter g.remaining g.noticed (passing before later i)).2 := by
    rw [h.remaining]
    simp only [passing, List.mem_append, List.mem_singleton, or_true, if_true]
    split
    · rfl
    · split <;> rfl
  rw [poll_eq h.waiters hi hself fun j _ hj => passing_concat (by simp [hj.symm])]
  refine ⟨h.remaining, ?_⟩
  rw [← List.append_assoc, count_wait_concat (e := .poll i) nofun]

lemma handle (h : Opened before later g) (hin : InOrder (before ++ later))
    (hdue : e.IsDue (before ++ later)) : Opened before (later ++ [e]) (g.handle e) := by
  cases e with
  | release => exact h.release
  | wait => exact h.wait hin
  | poll i => exact h.poll hdue.1

/-- An open gate stays open. -/
lemma run (h : Opened before [] g) (hin : InOrder (before ++ later)) :
    Opened before later (g.run later) := by
  induction later using List.reverseRecOn with
  | nil => exact h
  | append_singleton later e ih =>
    rw [← List.append_assoc] at hin
    rw [run_concat]
    exact (ih hin.front).handle hin.front hin.isDue

end Opened

/-- The first waiter does not sleep any more when the gate opens; the others go on. -/
lemma passing_nil (i : Nat) :
    passing (events ++ [.release]) [] i = if i = 0 then .looking else sleeping events i := by
  by_cases hi : i = 0
  · simp [passing, hi]
  · simp [passing, sleeping, hi]

/-- The last release opens the gate and wakes the first waiter if it sleeps. -/
lemma Shut.opened (h : Shut n events g) (hin : InOrder events) (hlast : g.remaining = 1) :
    Opened (events ++ [.release]) [] g.release := by
  rw [release_eq, if_pos hlast, notify]
  by_cases hslept : .poll 0 ∈ events
  · obtain ⟨count, hcount⟩ := Nat.exists_eq_add_one.mpr (hin.lt_count hslept)
    have hwaiters := h.waiters
    rw [hcount, List.range_succ_eq_map, List.map_cons, sleeping, if_pos hslept] at hwaiters
    have hwoken : wakeFirst? g.waiters
        = some (.looking :: ((List.range count).map Nat.succ).map (sleeping events)) := by
      rw [hwaiters, wakeFirst?]
    dsimp only
    rw [hwoken]
    refine ⟨rfl, ?_⟩
    rw [List.append_nil, count_wait_concat (e := .release) nofun, hcount, List.range_succ_eq_map,
      List.map_cons, passing_nil, if_pos rfl, List.map_map, List.map_map]
    refine congrArg _ (List.map_congr_left fun i _ => ?_)
    exact (passing_nil (i + 1)).symm
  · have hawake : ∀ i, sleeping events i = .looking := fun i =>
      if_neg fun hi => hslept (hin.first_mem hi)
    have hnobody : wakeFirst? g.waiters = none := by
      refine wakeFirst?_of_not_mem ?_
      rw [h.waiters]
      simp [hawake]
    dsimp only
    rw [hnobody]
    refine ⟨rfl, ?_⟩
    rw [List.append_nil, count_wait_concat (e := .release) nofun]
    refine h.waiters.trans (List.map_congr_left fun i _ => ?_)
    rw [passing_nil, hawake, ite_self]

/-- **What the gate is like after every row of events.** -/
theorem shut_or_opened (n : Nat) (h : InOrder events) :
    Shut n events ((ofPermits n).run events) ∨
      ∃ before later, events = before ++ later ∧ n = before.count .release ∧
        Opened before later ((ofPermits n).run events) := by
  induction events using List.reverseRecOn with
  | nil =>
    rcases Nat.eq_zero_or_pos n with rfl | hn
    · exact .inr ⟨[], [], rfl, rfl, .initial⟩
    · exact .inl (.initial hn)
  | append_singleton events e ih =>
    rw [run_concat]
    rcases ih h.front with hshut | ⟨before, later, rfl, hn, hopen⟩
    · cases e with
      | release =>
        by_cases hlast : ((ofPermits n).run events).remaining = 1
        · refine .inr ⟨events ++ [.release], [], (List.append_nil _).symm, ?_,
            hshut.opened h.front hlast⟩
          rw [← hshut.remaining, hlast, List.count_append, List.count_singleton_self, Nat.add_comm]
        · exact .inl (hshut.release hlast)
      | wait => exact .inl (hshut.wait h.front)
      | poll i => exact .inl (hshut.poll h.isDue.1)
    · exact .inr ⟨before, later ++ [e], List.append_assoc .., hn, hopen.handle h.front h.isDue⟩

/-! ## Who passes -/

lemma Shut.getElem? (h : Shut n events g) (hi : i < events.count .wait) :
    g.waiters[i]? = some (sleeping events i) := by
  simp [h.waiters, hi]

lemma Opened.getElem? (h : Opened before later g) (hi : i < (before ++ later).count .wait) :
    g.waiters[i]? = some (passing before later i) := by
  rw [h.waiters, List.getElem?_map, List.getElem?_range hi, Option.map_some]

lemma Shut.not_finished (h : Shut n events g) : .finished ∉ g.waiters := by
  intro hmem
  rw [h.waiters, List.mem_map] at hmem
  obtain ⟨i, -, hi⟩ := hmem
  rw [sleeping] at hi
  split at hi <;> exact nomatch hi

/-- Whoever is polled for the first time at an open gate passes. -/
lemma Opened.finishes (h : Opened before later g) (hi : i < g.waiters.length)
    (hfirst : .poll i ∉ before ++ later) : (g.poll i).waiters[i]? = some .finished := by
  rw [h.waiters, List.length_map, List.length_range] at hi
  rw [List.mem_append, not_or] at hfirst
  have hlater : i < (before ++ (later ++ [Event.poll i])).count Event.wait := by
    rwa [← List.append_assoc, count_wait_concat (e := .poll i) nofun]
  rw [(h.poll hi).getElem? hlater, passing, if_neg fun hold => hfirst.1 hold.2,
    if_pos List.mem_concat_self]

/-- The waiter has been polled and has not finished. -/
def IsPending (events : List Event) (g : Gate) (i : Nat) : Prop :=
  .poll i ∈ events ∧ g.waiters[i]? ≠ some .finished

/-- The waiter is pending, and has been polled before all others that are. -/
def WaitsLongest (events : List Event) (g : Gate) (i : Nat) : Prop :=
  IsPending events g i ∧ ∃ before after, events = before ++ .poll i :: after ∧
    ∀ j ≠ i, IsPending events g j → .poll j ∉ before

lemma Shut.isPending_iff (h : Shut n events g) : IsPending events g j ↔ .poll j ∈ events :=
  and_iff_left fun hfinished => h.not_finished (List.mem_of_getElem? hfinished)

/-- At a shut gate, the waiter that came first waits longest, if it has been polled. -/
lemma Shut.waitsLongest_iff (h : Shut n events g) (hin : InOrder events) :
    WaitsLongest events g i ↔ i = 0 ∧ .poll 0 ∈ events := by
  simp only [WaitsLongest, h.isPending_iff]
  constructor
  · rintro ⟨hmem, before, after, rfl, hbefore⟩
    refine ⟨?_, hin.first_mem hmem⟩
    by_contra hi
    exact hbefore 0 (Ne.symm hi) (hin.first_mem hmem) (hin.isDue.2 0 (Nat.pos_of_ne_zero hi))
  · rintro ⟨rfl, hmem⟩
    obtain ⟨before, after, rfl, hfirst⟩ := List.eq_append_cons_of_mem hmem
    exact ⟨hmem, before, after, rfl, fun j _ _ hj => hfirst (hin.front.first_mem hj)⟩

/-- After the last release, the waiter that came first passes when it is polled, and nobody else
that has been polled ever does. -/
lemma Shut.run_release (h : Shut n events g) (hlast : g.remaining = 1)
    (hin : InOrder (events ++ .release :: later)) (hi : .poll i ∈ events) :
    (g.run (.release :: later)).waiters[i]? = some .finished ↔ i = 0 ∧ .poll 0 ∈ later := by
  have hopen : Opened (events ++ [.release]) later (g.run (.release :: later)) := by
    rw [List.append_cons] at hin
    exact (h.opened hin.front.front hlast).run hin
  have hcount : i < (events ++ [Event.release] ++ later).count Event.wait := by
    rw [List.append_assoc, List.count_append]
    exact Nat.lt_add_right _ (hin.front.lt_count hi)
  rw [hopen.getElem? hcount, Option.some_inj, passing]
  by_cases hzero : i = 0
  · subst hzero
    simp
  · simp [hzero, hi]

/-- **Who passes a gate, and when.**  After every row of events, the permits that are missing are
those that have not been released; as long as some are, nobody has passed.  When none is, releases
change nothing, and whoever is polled for the first time passes at once.  When the last permit is
released while waiters are pending, the one that waits longest passes as soon as it is polled, and
the other pending ones never do. -/
theorem waiters_run (n : Nat) (h : InOrder events) :
    let g := (ofPermits n).run events
    g.waiters.length = events.count .wait
      ∧ g.remaining = n - events.count .release
      ∧ (0 < g.remaining → .finished ∉ g.waiters)
      ∧ (g.remaining = 0 → g.release = g)
      ∧ (g.remaining = 0 → ∀ i < g.waiters.length, .poll i ∉ events →
          (g.poll i).waiters[i]? = some .finished)
      ∧ (g.remaining = 1 →
          ((∃ j, IsPending events g j) → ∃ i, WaitsLongest events g i)
            ∧ ∀ i, WaitsLongest events g i → ∀ later, InOrder (events ++ .release :: later) →
                ((g.run (.release :: later)).waiters[i]? = some .finished ↔ .poll i ∈ later)
                  ∧ ∀ j ≠ i, IsPending events g j →
                      (g.run (.release :: later)).waiters[j]? ≠ some .finished) := by
  intro g
  rcases shut_or_opened n h with hshut | ⟨before, later, rfl, hn, hopen⟩
  · refine ⟨?_, ?_, fun _ => hshut.not_finished, release_of_open, ?_, ?_⟩
    · simp [g, hshut.waiters]
    · exact Nat.eq_sub_of_add_eq hshut.remaining
    · exact fun hzero => absurd hzero (Nat.ne_of_gt hshut.pos)
    · refine fun hlast => ⟨?_, fun i hi later hin => ?_⟩
      · rintro ⟨j, hj⟩
        exact ⟨0, (hshut.waitsLongest_iff h).mpr ⟨rfl, h.first_mem hj.1⟩⟩
      · obtain ⟨rfl, hpolled⟩ := (hshut.waitsLongest_iff h).mp hi
        refine ⟨?_, fun j hj hpending hfinished => ?_⟩
        · rw [hshut.run_release hlast hin hpolled]
          exact and_iff_right rfl
        · exact hj ((hshut.run_release hlast hin hpending.1).mp hfinished).1
  · refine ⟨?_, ?_, ?_, release_of_open, ?_, ?_⟩
    · simp only [g, hopen.waiters, List.length_map, List.length_range]
    · rw [hn, List.count_append, Nat.sub_eq_zero_of_le (Nat.le_add_right _ _)]
      exact hopen.remaining
    · exact fun hpos => absurd hopen.remaining (Nat.ne_of_gt hpos)
    · exact fun _ i hi => hopen.finishes hi
    · exact fun hlast => absurd (hopen.remaining.symm.trans hlast) Nat.zero_ne_one

/-- Two waiters sleep at a gate of two permits, and a third comes after it has opened. -/
theorem waiters_run_two :
    let events : List Event := [.wait, .wait, .poll 0, .poll 1, .release]
    let g := (ofPermits 2).run events
    InOrder events ∧ InOrder (events ++ .release :: [.wait, .poll 0, .poll 1, .poll 2])
      ∧ g.remaining = 1 ∧ WaitsLongest events g 0 ∧ IsPending events g 1
      ∧ (g.run [.release, .wait, .poll 0, .poll 1, .poll 2]).waiters
          = [.finished, .asleep, .finished]
      ∧ (g.run [.release, .wait, .poll 0, .poll 1, .poll 2]).waiters[0]? = some .finished := by
  have hin : InOrder [.wait, .wait, .poll 0, .poll 1, .release] := by decide
  have hlater : InOrder ([.wait, .wait, .poll 0, .poll 1, .release]
      ++ .release :: [.wait, .poll 0, .poll 1, .poll 2]) := by decide
  have hlongest : WaitsLongest [.wait, .wait, .poll 0, .poll 1, .release]
      ((ofPermits 2).run [.wait, .wait, .poll 0, .poll 1, .release]) 0 :=
    ⟨⟨by decide, by decide⟩, [.wait, .wait], [.poll 1, .release], rfl,
      fun j _ _ hmem => by simp at hmem⟩
  refine ⟨hin, hlater, by decide, hlongest, ⟨by decide, by decide⟩, by decide, ?_⟩
  exact (((waiters_run 2 hin).2.2.2.2.2 (by decide)).2 0 hlongest _ hlater).1.mpr (by decide)

end FleetAgent.Shell.Gate
