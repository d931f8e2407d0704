/-
# Callers take turns

However calls, replies and readings of the clock are interleaved, what a provider does is one
turn after another: the callers have their turns in the order of their calls, and each turn is
whole before the next one begins, except that the last may still wait for the reply to its
request (`Serial`).  What a turn does depends on the token that is cached when it begins, and on
nothing else that other callers have done (`Turn`).  So at most one registration is in progress,
and callers that come after a success while its token is valid add no request.

`Move p s e s' effects` lists the ways in which the event `e` changes the provider.  Every step
is a move (`step_move`); a move keeps the trace serial (`Serial.move`), so a run does.
-/
import FleetAgent.Auth.Provider
import Mathlib.Data.List.Basic
import Mathlib.Tactic.Common

namespace FleetAgent.Auth.Provider

variable {p : Provider} {s s' : State} {effects : List Effect}

/-! ## Turns -/

/-- No cached token is valid at a moment. -/
def Stale (cached : Option Token) (now : Nat) : Prop :=
  ∀ t, cached = some t → t.expiresAt ≤ now

/-- A whole turn in which nothing is sent. -/
inductive Silent (p : Provider) (cached : Option Token) (caller now : Nat) :
    List Effect → Prop where
  /-- A valid token is cached: it is returned, and no registration begins. -/
  | served (t : Token) (hcached : cached = some t) (hvalid : now < t.expiresAt) :
      Silent p cached caller now [.looked caller now, .returned caller (.ok t.value)]
  /-- The registration cannot be signed. -/
  | unsigned (timestamp : Nat) (e : Device.KeyError) (hstale : Stale cached now)
      (he : registration p.base p.device p.key timestamp = .error e) :
      Silent p cached caller now
        [.looked caller now, .began caller timestamp, .returned caller (.error (.key e))]

/-- The part of a turn before the reply to its request: the caller finds no valid token, and
registers at the moment `timestamp`. -/
inductive Opening (p : Provider) (cached : Option Token) (caller now timestamp : Nat) :
    List Effect → Prop where
  | sent (request : Http.Request) (hstale : Stale cached now)
      (hrequest : registration p.base p.device p.key timestamp = .ok request) :
      Opening p cached caller now timestamp
        [.looked caller now, .began caller timestamp, .sent caller request]

/-- The part of a turn from the reply on, with the cached token after it.  Only a success
replaces the cached token, by the one that its caller gets. -/
inductive Closing (p : Provider) (cached : Option Token) (caller timestamp : Nat)
    (r : Http.Reply) : List Effect → Option Token → Prop where
  | granted (t : Token) (h : outcome p.graceMs timestamp r = .granted t) :
      Closing p cached caller timestamp r
        [.ended caller r, .cached t, .returned caller (.ok t.value)] (some t)
  | refused (e : TokenError) (h : outcome p.graceMs timestamp r = .refused e) :
      Closing p cached caller timestamp r [.ended caller r, .returned caller (.error e)] cached
  | crashed (h : outcome p.graceMs timestamp r = .crashed) :
      Closing p cached caller timestamp r [.ended caller r, .crashed caller] cached

/-- A whole turn, with the cached token after it. -/
inductive Turn (p : Provider) (cached : Option Token) (caller : Nat) :
    List Effect → Option Token → Prop where
  | silent (now : Nat) (turn : List Effect) (hsilent : Silent p cached caller now turn) :
      Turn p cached caller turn cached
  | registered (now timestamp : Nat) (r : Http.Reply) (opening closing : List Effect)
      (after : Option Token) (hopening : Opening p cached caller now timestamp opening)
      (hclosing : Closing p cached caller timestamp r closing after) :
      Turn p cached caller (opening ++ closing) after

/-- The turns of the first `n` callers, one after another in the order of their calls, with the
cached token after them. -/
inductive Turns (p : Provider) : Nat → List Effect → Option Token → Prop where
  | none : Turns p 0 [] none
  | next (n : Nat) (trace turn : List Effect) (cached after : Option Token)
      (htrace : Turns p n trace cached) (hturn : Turn p cached n turn after) :
      Turns p (n + 1) (trace ++ turn) after

/-- What is going on beside the turns that are over, with the registrations in progress: nothing,
or the turn of one caller that waits for the reply. -/
inductive Current (p : Provider) (cached : Option Token) (caller : Nat) :
    List Effect → List Refresh → Prop where
  | nothing : Current p cached caller [] []
  | waits (now timestamp : Nat) (opening : List Effect)
      (hopening : Opening p cached caller now timestamp opening) :
      Current p cached caller opening [⟨caller, timestamp⟩]

/-- What a provider has done: the turns of the first `n` callers, and the beginning of that of
the next caller, if one is registering.  The others wait, in the order of their calls. -/
structure Serial (p : Provider) (n : Nat) (s : State) (trace : List Effect) : Prop where
  turns : ∃ past current, trace = past ++ current ∧ Turns p n past s.cached ∧
    Current p s.cached n current s.refreshes
  holder : s.holder = s.refreshes.head?.map (·.caller)
  waiting : s.waiting = List.range' (n + s.refreshes.length) s.waiting.length
  calls : s.calls = n + s.refreshes.length + s.waiting.length

/-! ## Moves -/

/-- Whether an event is a call. -/
def Event.isCall : Event → Bool
  | call => true
  | _ => false

/-- The ways in which an event changes the provider. -/
inductive Move (p : Provider) (s : State) : Event → State → List Effect → Prop where
  /-- Nothing happens: nobody waits, the lock is not free, or nobody waits for the reply. -/
  | idle (e : Event) (he : e.isCall = false) : Move p s e s []
  | called : Move p s .call { s with calls := s.calls + 1, waiting := s.waiting ++ [s.calls] } []
  /-- A caller has its whole turn at once. -/
  | turned (caller now timestamp : Nat) (rest : List Nat) (turn : List Effect)
      (hfree : s.holder = none) (hwaiting : s.waiting = caller :: rest)
      (hsilent : Silent p s.cached caller now turn) :
      Move p s (.locked now timestamp) { s with waiting := rest } turn
  | opened (caller now timestamp : Nat) (rest : List Nat) (opening : List Effect)
      (hfree : s.holder = none) (hwaiting : s.waiting = caller :: rest)
      (hopening : Opening p s.cached caller now timestamp opening) :
      Move p s (.locked now timestamp)
        { s with
          waiting := rest
          holder := some caller
          refreshes := s.refreshes ++ [⟨caller, timestamp⟩] } opening
  | closed (refresh : Refresh) (r : Http.Reply) (closing : List Effect) (after : Option Token)
      (hrefresh : refresh ∈ s.refreshes)
      (hclosing : Closing p s.cached refresh.caller refresh.timestamp r closing after) :
      Move p s (.reply refresh.caller r)
        { s with cached := after, holder := none, refreshes := s.refreshes.erase refresh } closing

lemma valid?_eq_some_iff {now : Nat} {t : Token} :
    s.valid? now = some t ↔ s.cached = some t ∧ now < t.expiresAt := by
  simp [State.valid?, Option.filter_eq_some_iff, Token.isValidAt]

lemma valid?_eq_none_iff {now : Nat} : s.valid? now = none ↔ Stale s.cached now := by
  simp [State.valid?, Option.filter_eq_none_iff, Token.isValidAt, Stale]

/-- The caller that has waited longest gets a lock that is free. -/
lemma step_locked (p : Provider) (now timestamp : Nat) {caller : Nat} {rest : List Nat}
    (hfree : s.holder = none) (hwaiting : s.waiting = caller :: rest) :
    step p s (.locked now timestamp)
      = onLocked p { s with waiting := rest } caller now timestamp := by
  simp [step, hfree, hwaiting]

/-- A caller that has the lock has its whole turn, or begins it and keeps the lock. -/
lemma onLocked_cases (p : Provider) (s : State) (caller now timestamp : Nat) :
    ((onLocked p s caller now timestamp).1 = s ∧
        Silent p s.cached caller now (onLocked p s caller now timestamp).2) ∨
      ((onLocked p s caller now timestamp).1
          = { s with
              holder := some caller
              refreshes := s.refreshes ++ [⟨caller, timestamp⟩] } ∧
        Opening p s.cached caller now timestamp (onLocked p s caller now timestamp).2) := by
  unfold onLocked
  cases hvalid : s.valid? now with
  | some t =>
    obtain ⟨hcached, hnow⟩ := valid?_eq_some_iff.mp hvalid
    exact .inl ⟨rfl, .served t hcached hnow⟩
  | none =>
    have hstale : Stale s.cached now := valid?_eq_none_iff.mp hvalid
    cases hrequest : registration p.base p.device p.key timestamp with
    | error e => exact .inl ⟨rfl, .unsigned timestamp e hstale hrequest⟩
    | ok request => exact .inr ⟨rfl, .sent request hstale hrequest⟩

/-- The reply to a registration ends the turn of its caller and frees the lock. -/
lemma onReply_closing (p : Provider) (s : State) (refresh : Refresh) (r : Http.Reply) :
    ∃ after, (onReply p s refresh r).1
        = { s with cached := after, holder := none, refreshes := s.refreshes.erase refresh } ∧
      Closing p s.cached refresh.caller refresh.timestamp r (onReply p s refresh r).2 after := by
  unfold onReply
  cases houtcome : outcome p.graceMs refresh.timestamp r with
  | granted t => exact ⟨_, rfl, .granted t houtcome⟩
  | refused e => exact ⟨_, rfl, .refused e houtcome⟩
  | crashed => exact ⟨_, rfl, .crashed houtcome⟩

lemma locked_move (p : Provider) (s : State) (now timestamp : Nat) :
    Move p s (.locked now timestamp) (step p s (.locked now timestamp)).1
      (step p s (.locked now timestamp)).2 := by
  cases hholder : s.holder with
  | some holder =>
    rw [step, hholder]
    exact .idle _ rfl
  | none =>
    cases hwaiting : s.waiting with
    | nil =>
      rw [step, hholder, hwaiting]
      exact .idle _ rfl
    | cons caller rest =>
      rw [step_locked p now timestamp hholder hwaiting]
      obtain ⟨hstate, hsilent⟩ | ⟨hstate, hopening⟩ :=
        onLocked_cases p { s with waiting := rest } caller now timestamp
      · rw [hstate]
        exact .turned caller now timestamp rest _ hholder hwaiting hsilent
      · rw [hstate]
        exact .opened caller now timestamp rest _ hholder hwaiting hopening

lemma reply_move (p : Provider) (s : State) (caller : Nat) (r : Http.Reply) :
    Move p s (.reply caller r) (step p s (.reply caller r)).1 (step p s (.reply caller r)).2 := by
  rw [step]
  cases hfind : s.refreshes.find? (·.caller == caller) with
  | none => exact .idle _ rfl
  | some refresh =>
    obtain rfl : refresh.caller = caller := by simpa using List.find?_some hfind
    obtain ⟨after, hstate, hclosing⟩ := onReply_closing p s refresh r
    dsimp only
    rw [hstate]
    exact .closed refresh r _ after (List.mem_of_find?_eq_some hfind) hclosing

/-- **Every step is a move.** -/
theorem step_move (p : Provider) (s : State) (e : Event) :
    Move p s e (step p s e).1 (step p s e).2 := by
  cases e with
  | call => exact .called
  | locked now timestamp => exact locked_move p s now timestamp
  | reply caller r => exact reply_move p s caller r

/-- The calls are counted. -/
lemma Move.calls {e : Event} (h : Move p s e s' effects) :
    s'.calls = s.calls + if e.isCall then 1 else 0 := by
  cases h with
  | idle _ he => rw [he]; rfl
  | _ => rfl

namespace Serial

variable {n : Nat} {trace : List Effect}

lemma initial (p : Provider) : Serial p 0 .initial [] where
  turns := ⟨[], [], rfl, .none, .nothing⟩
  holder := rfl
  waiting := rfl
  calls := rfl

/-- While the lock is free, no registration is in progress. -/
lemma refreshes_eq_nil (h : Serial p n s trace) (hfree : s.holder = none) : s.refreshes = [] :=
  List.head?_eq_none_iff.mp (Option.map_eq_none_iff.mp (h.holder.symm.trans hfree))

/-- While the lock is free, all turns are over. -/
lemma turns_of_free (h : Serial p n s trace) (hfree : s.holder = none) :
    Turns p n trace s.cached := by
  obtain ⟨past, current, rfl, hturns, hcurrent⟩ := h.turns
  rw [h.refreshes_eq_nil hfree] at hcurrent
  cases hcurrent
  rwa [List.append_nil]

/-- The caller that has waited longest is the next one, and the others wait as before. -/
lemma next (h : Serial p n s trace) (hfree : s.holder = none) {caller : Nat} {rest : List Nat}
    (hwaiting : s.waiting = caller :: rest) :
    caller = n ∧ rest = List.range' (n + 1) rest.length ∧ s.calls = n + 1 + rest.length := by
  have hrange := h.waiting
  have hcalls := h.calls
  rw [h.refreshes_eq_nil hfree, hwaiting] at hrange hcalls
  rw [List.length_cons, List.range'_succ] at hrange
  obtain ⟨hcaller, hrest⟩ := List.cons.inj hrange
  refine ⟨hcaller, hrest, ?_⟩
  rw [hcalls, List.length_cons, List.length_nil]
  omega

lemma called (h : Serial p n s trace) :
    Serial p n { s with calls := s.calls + 1, waiting := s.waiting ++ [s.calls] } trace where
  turns := h.turns
  holder := h.holder
  waiting := by
    simp only [List.length_append, List.length_singleton]
    rw [List.range'_1_concat, ← h.waiting, h.calls]
  calls := by
    simp only [List.length_append, List.length_singleton]
    rw [h.calls, Nat.add_assoc]

lemma turned (h : Serial p n s trace) (hfree : s.holder = none) {caller now : Nat}
    {rest : List Nat} (hwaiting : s.waiting = caller :: rest) {turn : List Effect}
    (hsilent : Silent p s.cached caller now turn) :
    Serial p (n + 1) { s with waiting := rest } (trace ++ turn) := by
  obtain ⟨rfl, hrest, hcalls⟩ := h.next hfree hwaiting
  have hnone := h.refreshes_eq_nil hfree
  refine ⟨⟨trace ++ turn, [], (List.append_nil _).symm, ?_, hnone ▸ .nothing⟩, h.holder, ?_, ?_⟩
  · exact .next _ _ _ _ _ (h.turns_of_free hfree) (.silent now turn hsilent)
  · simpa [hnone] using hrest
  · simpa [hnone] using hcalls

lemma opened (h : Serial p n s trace) (hfree : s.holder = none) {caller now timestamp : Nat}
    {rest : List Nat} (hwaiting : s.waiting = caller :: rest) {opening : List Effect}
    (hopening : Opening p s.cached caller now timestamp opening) :
    Serial p n
      { s with
        waiting := rest
        holder := some caller
        refreshes := s.refreshes ++ [⟨caller, timestamp⟩] } (trace ++ opening) := by
  obtain ⟨rfl, hrest, hcalls⟩ := h.next hfree hwaiting
  rw [h.refreshes_eq_nil hfree]
  exact ⟨⟨trace, opening, rfl, h.turns_of_free hfree, .waits now timestamp opening hopening⟩, rfl,
    hrest, hcalls⟩

lemma closed (h : Serial p n s trace) {refresh : Refresh} (hrefresh : refresh ∈ s.refreshes)
    {r : Http.Reply} {closing : List Effect} {after : Option Token}
    (hclosing : Closing p s.cached refresh.caller refresh.timestamp r closing after) :
    Serial p (n + 1)
      { s with cached := after, holder := none, refreshes := s.refreshes.erase refresh }
      (trace ++ closing) := by
  obtain ⟨past, current, rfl, hturns, hcurrent⟩ := h.turns
  have hwaiting := h.waiting
  have hcalls := h.calls
  generalize s.refreshes = refreshes at hrefresh hcurrent hwaiting hcalls
  cases hcurrent with
  | nothing => exact absurd hrefresh List.not_mem_nil
  | waits now timestamp opening hopening =>
    -- the registration that ends is the one in progress, and ends the turn of its caller
    obtain rfl := List.mem_singleton.mp hrefresh
    have hturn := Turn.registered now timestamp r _ _ _ hopening hclosing
    refine ⟨⟨past ++ (current ++ closing), [], ?_, .next _ _ _ _ _ hturns hturn, ?_⟩, ?_, ?_, ?_⟩
    · rw [List.append_nil, List.append_assoc]
    · rw [List.erase_cons_head]
      exact .nothing
    · rw [List.erase_cons_head]
      rfl
    · simpa using hwaiting
    · simpa using hcalls

lemma move (h : Serial p n s trace) {e : Event} (hmove : Move p s e s' effects) :
    ∃ m, Serial p m s' (trace ++ effects) := by
  cases hmove with
  | idle => exact ⟨n, (List.append_nil trace).symm ▸ h⟩
  | called => exact ⟨n, (List.append_nil trace).symm ▸ h.called⟩
  | turned caller now timestamp rest turn hfree hwaiting hsilent =>
    exact ⟨n + 1, h.turned hfree hwaiting hsilent⟩
  | opened caller now timestamp rest opening hfree hwaiting hopening =>
    exact ⟨n, h.opened hfree hwaiting hopening⟩
  | closed refresh r closing after hrefresh hclosing => exact ⟨n + 1, h.closed hrefresh hclosing⟩

lemma run (h : Serial p n s trace) (events : List Event) :
    ∃ m, Serial p m (Provider.run p s events).1 (trace ++ (Provider.run p s events).2) := by
  induction events generalizing n s trace with
  | nil => exact ⟨n, (List.append_nil trace).symm ▸ h⟩
  | cons e events ih =>
    obtain ⟨m, hm⟩ := h.move (step_move p s e)
    rw [Provider.run, ← List.append_assoc]
    exact ih hm

/-- While no registration is in progress, the caller that has waited longest gets its turn. -/
lemma held (h : Serial p n s trace) (hnone : s.refreshes = []) {caller : Nat} {rest : List Nat}
    (hwaiting : s.waiting = caller :: rest) (now timestamp : Nat) :
    let held := step p s (.locked now timestamp)
    held.1.waiting = rest ∧ held.1.cached = s.cached ∧
      ((held.1.refreshes = [] ∧ Silent p s.cached caller now held.2) ∨
        (held.1.refreshes = [⟨caller, timestamp⟩] ∧
          Opening p s.cached caller now timestamp held.2)) := by
  have hfree : s.holder = none := by rw [h.holder, hnone]; rfl
  intro held
  have hheld : held = onLocked p { s with waiting := rest } caller now timestamp :=
    step_locked p now timestamp hfree hwaiting
  rw [hheld]
  obtain ⟨hstate, hsilent⟩ | ⟨hstate, hopening⟩ :=
    onLocked_cases p { s with waiting := rest } caller now timestamp
  · rw [hstate]
    exact ⟨rfl, rfl, .inl ⟨hnone, hsilent⟩⟩
  · rw [hstate]
    exact ⟨rfl, rfl, .inr ⟨congrArg (· ++ _) hnone, hopening⟩⟩

end Serial

/-! ## Requests and replies -/

/-- Whether an effect is the request of a registration. -/
def Effect.isSent : Effect → Bool
  | sent _ _ => true
  | _ => false

/-- Whether an effect is the end of a registration. -/
def Effect.isEnded : Effect → Bool
  | ended _ _ => true
  | _ => false

section

variable {cached after : Option Token} {caller n : Nat} {trace : List Effect}

lemma Turn.countP_isSent (h : Turn p cached caller effects after) :
    effects.countP Effect.isSent = effects.countP Effect.isEnded := by
  cases h with
  | silent now turn hsilent => cases hsilent <;> rfl
  | registered now timestamp r opening closing after hopening hclosing =>
    cases hopening
    cases hclosing <;> rfl

lemma Turns.countP_isSent (h : Turns p n trace cached) :
    trace.countP Effect.isSent = trace.countP Effect.isEnded := by
  induction h with
  | none => rfl
  | next n trace turn cached after htrace hturn ih =>
    rw [List.countP_append, List.countP_append, ih, hturn.countP_isSent]

/-- The registrations in progress are the requests without a reply: at most one. -/
lemma Serial.refreshes (h : Serial p n s trace) :
    s.refreshes.length ≤ 1 ∧
      trace.countP Effect.isSent = trace.countP Effect.isEnded + s.refreshes.length := by
  obtain ⟨past, current, rfl, hturns, hcurrent⟩ := h.turns
  generalize s.refreshes = refreshes at hcurrent
  rw [List.countP_append, List.countP_append, hturns.countP_isSent, Nat.add_assoc]
  refine ⟨?_, congrArg _ ?_⟩
  · cases hcurrent <;> simp
  · cases hcurrent with
    | nothing => rfl
    | waits now timestamp opening hopening =>
      cases hopening
      rfl

end

/-! ## After a success -/

/-- Whether an event is that the lock is given. -/
def Event.isLocked : Event → Bool
  | locked _ _ => true
  | _ => false

/-- A token is cached and the lock is free. -/
structure Fresh (t : Token) (s : State) : Prop where
  cached : s.cached = some t
  free : s.holder = none
  nothing : s.refreshes = []

/-- A caller looks at the cache, or gets a token. -/
def Serves (t : Token) (x : Effect) : Prop :=
  (∃ caller now, x = .looked caller now) ∨ ∃ caller, x = .returned caller (.ok t.value)

/-- If an event gives the lock, a token is still valid then. -/
def Timely (t : Token) (e : Event) : Prop :=
  ∀ now timestamp, e = .locked now timestamp → now < t.expiresAt

namespace Fresh

variable {t : Token}

lemma step_locked (h : Fresh t s) {now : Nat} (hnow : now < t.expiresAt) (timestamp : Nat)
    {caller : Nat} {rest : List Nat} (hwaiting : s.waiting = caller :: rest) :
    step p s (.locked now timestamp)
      = ({ s with waiting := rest }, [.looked caller now, .returned caller (.ok t.value)]) := by
  have hvalid : State.valid? { s with waiting := rest } now = some t :=
    valid?_eq_some_iff.mpr ⟨h.cached, hnow⟩
  rw [Provider.step_locked p now timestamp h.free hwaiting, onLocked, hvalid]

/-- A caller that gets the lock in time is served, and the token stays. -/
lemma step (h : Fresh t s) {e : Event} (he : Timely t e) :
    Fresh t (Provider.step p s e).1 ∧ ∀ x ∈ (Provider.step p s e).2, Serves t x := by
  cases e with
  | call => exact ⟨⟨h.cached, h.free, h.nothing⟩, nofun⟩
  | reply caller r =>
    rw [Provider.step, h.nothing]
    exact ⟨h, nofun⟩
  | locked now timestamp =>
    cases hwaiting : s.waiting with
    | nil =>
      rw [Provider.step, h.free, hwaiting]
      exact ⟨h, nofun⟩
    | cons caller rest =>
      rw [h.step_locked (he now timestamp rfl) timestamp hwaiting]
      refine ⟨⟨h.cached, h.free, h.nothing⟩, fun x hx => ?_⟩
      rcases List.mem_pair.mp hx with rfl | rfl
      · exact .inl ⟨caller, now, rfl⟩
      · exact .inr ⟨caller, rfl⟩

/-- The lock is the only thing that moves the queue: with it the first caller is served. -/
lemma queue (h : Fresh t s) {e : Event} (he : Timely t e) {i caller : Nat}
    (hi : s.waiting[i]? = some caller) :
    (e.isLocked = false ∧ (Provider.step p s e).1.waiting[i]? = some caller) ∨
      (e.isLocked = true ∧
        ((i = 0 ∧ .returned caller (.ok t.value) ∈ (Provider.step p s e).2) ∨
          ∃ j, i = j + 1 ∧ (Provider.step p s e).1.waiting[j]? = some caller)) := by
  cases e with
  | call =>
    refine .inl ⟨rfl, ?_⟩
    rw [Provider.step, List.getElem?_append_left (List.getElem?_eq_some_iff.mp hi).1]
    exact hi
  | reply other r =>
    refine .inl ⟨rfl, ?_⟩
    rw [Provider.step, h.nothing]
    exact hi
  | locked now timestamp =>
    refine .inr ⟨rfl, ?_⟩
    cases hwaiting : s.waiting with
    | nil =>
      rw [hwaiting] at hi
      exact nomatch hi
    | cons first rest =>
      rw [hwaiting] at hi
      rw [h.step_locked (he now timestamp rfl) timestamp hwaiting]
      cases i with
      | zero =>
        obtain rfl : first = caller := Option.some.inj hi
        exact .inl ⟨rfl, List.mem_cons_of_mem _ (List.mem_singleton_self _)⟩
      | succ i => exact .inr ⟨i, rfl, hi⟩

/-- Whoever is `i`-th in the queue is served when the lock has been given `i + 1` times. -/
lemma returned (h : Fresh t s) {events : List Event} (hevents : ∀ e ∈ events, Timely t e)
    {i caller : Nat} (hi : s.waiting[i]? = some caller)
    (hlocked : i < events.countP Event.isLocked) :
    .returned caller (.ok t.value) ∈ (run p s events).2 := by
  induction events generalizing s i with
  | nil => exact absurd hlocked (Nat.not_lt_zero i)
  | cons e events ih =>
    have he := hevents e List.mem_cons_self
    have hlater (j : Nat) := ih (i := j) (h.step (p := p) he).1
      fun e he => hevents e (List.mem_cons_of_mem _ he)
    rw [List.countP_cons] at hlocked
    refine List.mem_append.mpr ?_
    obtain ⟨hother, hi⟩ | ⟨hlock, ⟨-, hserved⟩ | ⟨j, rfl, hj⟩⟩ := h.queue (p := p) he hi
    · rw [hother] at hlocked
      exact .inr (hlater i hi hlocked)
    · exact .inl hserved
    · rw [hlock] at hlocked
      exact .inr (hlater j hj (Nat.lt_of_succ_lt_succ hlocked))

lemma run (h : Fresh t s) {events : List Event} (hevents : ∀ e ∈ events, Timely t e) :
    Fresh t (run p s events).1 ∧ ∀ x ∈ (run p s events).2, Serves t x := by
  induction events generalizing s with
  | nil => exact ⟨h, nofun⟩
  | cons e events ih =>
    obtain ⟨hfresh, hserves⟩ := h.step (p := p) (hevents e List.mem_cons_self)
    obtain ⟨hlast, hlater⟩ := ih hfresh fun e he => hevents e (List.mem_cons_of_mem _ he)
    exact ⟨hlast, fun x hx => (List.mem_append.mp hx).elim (hserves x) (hlater x)⟩

end Fresh

end FleetAgent.Auth.Provider
