/-
# Sessions and their slots

Whatever requests arrive, however their tokens come and their sessions end, and whoever takes
slots directly in between, the slots that are held are those of the live sessions and those
taken directly, and the books of the registry agree with them (`Balanced`).  So the cap holds,
no id is held twice, and no slot is given back that is not held.  A request opens a session
exactly if it is valid, its token is there, and a slot for it is free at that moment.

`Move d e d'` lists the ways in which the event `e` takes the handler from `d` to `d'`.  Every
step is a move (`step_move`), so what all steps keep is proved by cases on moves.
-/
import FleetAgent.Shell.Attach
import FleetAgent.Proofs.Shell.Registry

namespace FleetAgent.Shell.Desk

/-! ## Moves -/

/-- The handler that has read a request and fetches no token for it. -/
def ignored (d : Desk) : Desk := { d with requests := d.requests + 1 }

/-- The handler that fetches the token of a request. -/
def asked (d : Desk) (r : Request) : Desk :=
  { d with
    requests := d.requests + 1
    tokenCalls := d.tokenCalls + 1
    fetching := d.fetching ++ [⟨d.requests, r⟩] }

/-- The handler that is done with a request. -/
def answered (d : Desk) (n : Nat) : Desk :=
  { d with fetching := d.fetching.filter (·.number != n) }

/-- The handler with one more session. -/
def opened (d : Desk) (p : PendingRequest) (token : String) : Desk :=
  { d.answered p.number with
    registry := d.registry.taken p.request.session
    sessions := d.sessions ++ [⟨p.number, p.request, token⟩] }

/-- The handler without a session. -/
def closed (d : Desk) (s : LiveSession) : Desk :=
  { d with
    registry := d.registry.drop s.request.session
    sessions := d.sessions.filter (·.number != s.number) }

/-- The handler after a slot has been taken directly. -/
def lent (d : Desk) (id : String) : Desk :=
  { d with registry := d.registry.taken id, direct := id :: d.direct }

/-- The handler after a slot that was taken directly has been given back. -/
def repaid (d : Desk) (id : String) : Desk :=
  { d with registry := d.registry.drop id, direct := d.direct.erase id }

/-- The ways in which an event changes the handler. -/
inductive Move (d : Desk) : Event → Desk → Prop where
  /-- An invalid request is dropped. -/
  | ignored (r : Request) (e : RequestError) (h : r.validate = .error e) :
      Move d (.request r) d.ignored
  /-- The token of a valid request is fetched. -/
  | asked (r : Request) (h : r.validate = .ok ()) : Move d (.request r) (d.asked r)
  /-- A token is there, and a slot is free. -/
  | opened (p : PendingRequest) (token : String) (hp : p ∈ d.fetching)
      (hfree : d.registry.isFree p.request.session = true) :
      Move d (.token p.number (.ok token)) (d.opened p token)
  /-- A token is there, but no slot is free. -/
  | rejected (p : PendingRequest) (token : String) (hp : p ∈ d.fetching)
      (hfull : ¬d.registry.isFree p.request.session = true) :
      Move d (.token p.number (.ok token)) (d.answered p.number)
  /-- There is no token. -/
  | refused (p : PendingRequest) (e : Auth.TokenError) (hp : p ∈ d.fetching) :
      Move d (.token p.number (.error e)) (d.answered p.number)
  /-- A session ends, or could not be started. -/
  | closed (s : LiveSession) (result : Except StartError Unit) (hs : s ∈ d.sessions) :
      Move d (.ended s.number result) (d.closed s)
  /-- A slot is taken directly. -/
  | lent (id : String) (hfree : d.registry.isFree id = true) : Move d (.acquire id) (d.lent id)
  /-- A slot that was taken directly is given back. -/
  | repaid (id : String) (hid : id ∈ d.direct) : Move d (.release id) (d.repaid id)
  /-- No token is being fetched for a request. -/
  | unasked (n : Nat) (result : Except Auth.TokenError String)
      (h : ∀ p ∈ d.fetching, p.number ≠ n) : Move d (.token n result) d
  /-- A request has no session. -/
  | unopened (n : Nat) (result : Except StartError Unit) (h : ∀ s ∈ d.sessions, s.number ≠ n) :
      Move d (.ended n result) d
  /-- A slot cannot be taken directly. -/
  | denied (id : String) (hfull : ¬d.registry.isFree id = true) : Move d (.acquire id) d
  /-- A slot was not taken directly. -/
  | unlent (id : String) (h : id ∉ d.direct) : Move d (.release id) d

lemma request_move (d : Desk) (r : Request) : Move d (.request r) (d.step (.request r)) := by
  rw [step]
  cases hvalid : r.validate with
  | ok u => exact .asked r hvalid
  | error e => exact .ignored r e hvalid

lemma token_move (d : Desk) (n : Nat) (result : Except Auth.TokenError String) :
    Move d (.token n result) (d.step (.token n result)) := by
  rw [step]
  cases hfind : d.fetching.find? (·.number == n) with
  | none =>
    exact .unasked n result fun p hp => by simpa using List.find?_eq_none.mp hfind p hp
  | some p =>
    have hp := List.mem_of_find?_eq_some hfind
    obtain rfl : p.number = n := by simpa using List.find?_some hfind
    cases result with
    | error e => exact .refused p e hp
    | ok token =>
      dsimp only [openSession]
      by_cases hfree : d.registry.isFree p.request.session = true
      · rw [Registry.acquire_of_isFree hfree]
        exact .opened p token hp hfree
      · rw [Registry.acquire_of_not_isFree hfree]
        exact .rejected p token hp hfree

lemma ended_move (d : Desk) (n : Nat) (result : Except StartError Unit) :
    Move d (.ended n result) (d.step (.ended n result)) := by
  rw [step]
  cases hfind : d.sessions.find? (·.number == n) with
  | none =>
    exact .unopened n result fun s hs => by simpa using List.find?_eq_none.mp hfind s hs
  | some s =>
    obtain rfl : s.number = n := by simpa using List.find?_some hfind
    exact .closed s result (List.mem_of_find?_eq_some hfind)

/-- **Every step is a move.** -/
theorem step_move (d : Desk) (e : Event) : Move d e (d.step e) := by
  cases e with
  | request r => exact request_move d r
  | token n result => exact token_move d n result
  | ended n result => exact ended_move d n result
  | acquire id =>
    rw [step]
    by_cases hfree : d.registry.isFree id = true
    · rw [Registry.acquire_of_isFree hfree]
      exact .lent id hfree
    · rw [Registry.acquire_of_not_isFree hfree]
      exact .denied id hfree
  | release id =>
    rw [step]
    by_cases hid : id ∈ d.direct
    · rw [if_pos (List.contains_iff_mem.mpr hid)]
      exact .repaid id hid
    · rw [if_neg (fun h => hid (List.contains_iff_mem.mp h))]
      exact .unlent id hid

/-! ## The books -/

/-- The numbers of the requests that are not over. -/
def numbers (d : Desk) : List Nat :=
  d.fetching.map (·.number) ++ d.sessions.map (·.number)

/-- The ids of the slots that are in somebody's hands. -/
def slots (d : Desk) : List String :=
  d.sessions.map (·.request.session) ++ d.direct

/-- The slots are those of the sessions and those taken directly, and every request that is not
over has a number of its own. -/
structure Balanced (maxSessions : Nat) (d : Desk) : Prop where
  registry : d.registry.Consistent
  max_eq : d.registry.maxSessions = maxSessions
  slots_perm : d.slots.Perm d.registry.held
  nodup : d.numbers.Nodup
  lt_requests : ∀ n ∈ d.numbers, n < d.requests
  valid : ∀ p ∈ d.fetching, p.request.validate = .ok ()

/-- Where keys are not repeated, dropping a key drops one item. -/
lemma perm_cons_filter {α : Type} {key : α → Nat} {l : List α} {a : α} (h : (l.map key).Nodup)
    (ha : a ∈ l) : l.Perm (a :: l.filter (key · != key a)) := by
  induction l with
  | nil => exact absurd ha List.not_mem_nil
  | cons b l ih =>
    rw [List.map_cons, List.nodup_cons] at h
    rcases List.mem_cons.mp ha with rfl | ha
    · have hkeep : l.filter (key · != key a) = l := by
        refine List.filter_eq_self.mpr fun c hc => ?_
        have hne : key c ≠ key a := fun heq => h.1 (heq ▸ List.mem_map_of_mem hc)
        simpa using hne
      simp [hkeep]
    · have hne : key b ≠ key a := fun heq => h.1 (heq ▸ List.mem_map_of_mem ha)
      rw [List.filter_cons_of_pos (by simpa using hne)]
      exact ((ih h.2 ha).cons b).trans (.swap a b _)

namespace Balanced

variable {maxSessions : Nat} {d : Desk}

lemma ofMax (maxSessions : Nat) : Balanced maxSessions (.ofMax maxSessions) where
  registry := Registry.consistent_ofMax maxSessions
  max_eq := rfl
  slots_perm := .nil
  nodup := List.nodup_nil
  lt_requests := nofun
  valid := nofun

lemma nodup_fetching (h : d.Balanced maxSessions) : (d.fetching.map (·.number)).Nodup :=
  h.nodup.sublist (List.sublist_append_left _ _)

lemma nodup_sessions (h : d.Balanced maxSessions) : (d.sessions.map (·.number)).Nodup :=
  h.nodup.sublist (List.sublist_append_right _ _)

/-- A slot in somebody's hands is held. -/
lemma mem_held (h : d.Balanced maxSessions) {id : String} (hid : id ∈ d.slots) :
    id ∈ d.registry.held :=
  h.slots_perm.mem_iff.mp hid

lemma session_mem_slots {s : LiveSession} (hs : s ∈ d.sessions) : s.request.session ∈ d.slots :=
  List.mem_append_left _ (List.mem_map_of_mem (f := fun s => s.request.session) hs)

lemma direct_mem_slots {id : String} (hid : id ∈ d.direct) : id ∈ d.slots :=
  List.mem_append_right _ hid

/-! ### What moves keep -/

lemma ignored (h : d.Balanced maxSessions) : d.ignored.Balanced maxSessions :=
  { h with lt_requests := fun n hn => Nat.lt_succ_of_lt (h.lt_requests n hn) }

lemma asked (h : d.Balanced maxSessions) {r : Request} (hr : r.validate = .ok ()) :
    (d.asked r).Balanced maxSessions := by
  have hnumbers : (d.asked r).numbers.Perm (d.requests :: d.numbers) := by
    simp only [numbers, Desk.asked, List.map_append, List.append_assoc]
    exact List.perm_middle
  refine ⟨h.registry, h.max_eq, h.slots_perm, ?_, ?_, ?_⟩
  · rw [hnumbers.nodup_iff, List.nodup_cons]
    exact ⟨fun hmem => Nat.lt_irrefl _ (h.lt_requests _ hmem), h.nodup⟩
  · intro n hn
    rcases List.mem_cons.mp (hnumbers.mem_iff.mp hn) with rfl | hn
    · exact Nat.lt_succ_self _
    · exact Nat.lt_succ_of_lt (h.lt_requests n hn)
  · intro p hp
    rcases List.mem_append.mp hp with hp | hp
    · exact h.valid p hp
    · obtain rfl := List.mem_singleton.mp hp
      exact hr

lemma answered (h : d.Balanced maxSessions) (n : Nat) : (d.answered n).Balanced maxSessions := by
  have hsub : (d.answered n).numbers.Sublist d.numbers :=
    (List.filter_sublist.map _).append (.refl _)
  refine ⟨h.registry, h.max_eq, h.slots_perm, h.nodup.sublist hsub, ?_, ?_⟩
  · exact fun m hm => h.lt_requests m (hsub.subset hm)
  · exact fun p hp => h.valid p (List.mem_of_mem_filter hp)

lemma opened (h : d.Balanced maxSessions) {p : PendingRequest} (hp : p ∈ d.fetching)
    (token : String) (hfree : d.registry.isFree p.request.session = true) :
    (d.opened p token).Balanced maxSessions := by
  -- the number of the request moves from those that wait to those that have a session
  have hnumbers : (d.opened p token).numbers.Perm d.numbers := by
    have hfetching := ((perm_cons_filter h.nodup_fetching hp).map (·.number)).append_right
      (d.sessions.map (·.number))
    simp only [numbers, Desk.opened, Desk.answered, List.map_append]
    refine .trans ?_ hfetching.symm
    rw [← List.append_assoc]
    exact List.perm_append_singleton _ _
  have hslots : (d.opened p token).slots.Perm (p.request.session :: d.slots) := by
    simp only [slots, Desk.opened, List.map_append, List.append_assoc]
    exact List.perm_middle
  refine ⟨h.registry.taken hfree, h.max_eq, hslots.trans (h.slots_perm.cons _), ?_, ?_, ?_⟩
  · exact hnumbers.nodup_iff.mpr h.nodup
  · exact fun n hn => h.lt_requests n (hnumbers.mem_iff.mp hn)
  · exact fun q hq => h.valid q (List.mem_of_mem_filter hq)

lemma closed (h : d.Balanced maxSessions) {s : LiveSession} (hs : s ∈ d.sessions) :
    (d.closed s).Balanced maxSessions := by
  have hsub : (d.closed s).numbers.Sublist d.numbers :=
    (List.Sublist.refl _).append (List.filter_sublist.map _)
  have hslots : d.slots.Perm (s.request.session :: (d.closed s).slots) := by
    have hsessions := perm_cons_filter h.nodup_sessions hs
    exact (hsessions.map fun s : LiveSession => s.request.session).append_right d.direct
  have hheld := h.mem_held (session_mem_slots hs)
  refine ⟨h.registry.drop hheld, h.max_eq, ?_, h.nodup.sublist hsub, ?_, h.valid⟩
  · refine List.Perm.cons_inv (a := s.request.session) ?_
    exact (hslots.symm.trans h.slots_perm).trans (List.perm_cons_erase hheld)
  · exact fun n hn => h.lt_requests n (hsub.subset hn)

lemma lent (h : d.Balanced maxSessions) {id : String} (hfree : d.registry.isFree id = true) :
    (d.lent id).Balanced maxSessions :=
  { h with
    registry := h.registry.taken hfree
    slots_perm := List.perm_middle.trans (h.slots_perm.cons id) }

lemma repaid (h : d.Balanced maxSessions) {id : String} (hid : id ∈ d.direct) :
    (d.repaid id).Balanced maxSessions := by
  have hheld := h.mem_held (direct_mem_slots hid)
  have hslots : d.slots.Perm (id :: (d.repaid id).slots) :=
    ((List.perm_cons_erase hid).append_left _).trans List.perm_middle
  refine { h with registry := h.registry.drop hheld, slots_perm := ?_ }
  refine List.Perm.cons_inv (a := id) ?_
  exact (hslots.symm.trans h.slots_perm).trans (List.perm_cons_erase hheld)

lemma move (h : d.Balanced maxSessions) {e : Event} {d' : Desk} (hmove : Move d e d') :
    d'.Balanced maxSessions := by
  cases hmove with
  | ignored => exact h.ignored
  | asked r hr => exact h.asked hr
  | opened p token hp hfree => exact h.opened hp token hfree
  | rejected p => exact h.answered p.number
  | refused p => exact h.answered p.number
  | closed s result hs => exact h.closed hs
  | lent id hfree => exact h.lent hfree
  | repaid id hid => exact h.repaid hid
  | _ => exact h

lemma run (h : d.Balanced maxSessions) (events : List Event) :
    (d.run events).Balanced maxSessions := by
  induction events generalizing d with
  | nil => exact h
  | cons e events ih => exact ih (h.move (step_move d e))

end Balanced

/-! ## One request -/

/-- A request has a session. -/
def HasSession (d : Desk) (n : Nat) : Prop := ∃ s ∈ d.sessions, s.number = n

section

variable {d d' : Desk} {e : Event} {n : Nat}

lemma Move.requests_le (h : Move d e d') : d.requests ≤ d'.requests := by
  cases h with
  | ignored | asked => exact Nat.le_succ _
  | _ => exact Nat.le_refl _

/-- Only its own token ends the fetching of it. -/
lemma Move.mem_fetching_iff (h : Move d e d') (hn : n < d.requests)
    (he : ∀ result, e ≠ .token n result) {p : PendingRequest} (hp : p.number = n) :
    p ∈ d'.fetching ↔ p ∈ d.fetching := by
  have hanswered {q : PendingRequest} (hq : q.number ≠ n) :
      p ∈ (d.answered q.number).fetching ↔ p ∈ d.fetching := by
    simp [answered, List.mem_filter, hp, hq.symm]
  cases h with
  | asked r hr =>
    have hne : p ≠ ⟨d.requests, r⟩ := by
      rintro rfl
      exact Nat.lt_irrefl _ (hp ▸ hn)
    simp [Desk.asked, hne]
  | opened q token hq hfree => exact hanswered fun hqn => he (.ok token) (by rw [hqn])
  | rejected q token hq hfull => exact hanswered fun hqn => he (.ok token) (by rw [hqn])
  | refused q e hq => exact hanswered fun hqn => he (.error e) (by rw [hqn])
  | _ => exact Iff.rfl

/-- Only its own token opens a session for a request. -/
lemma Move.hasSession (h : Move d e d') (he : ∀ result, e ≠ .token n result)
    (hopen : d'.HasSession n) : d.HasSession n := by
  obtain ⟨s, hs, hnumber⟩ := hopen
  cases h with
  | opened p token hp hfree =>
    rcases List.mem_append.mp hs with hs | hs
    · exact ⟨s, hs, hnumber⟩
    · obtain rfl := List.mem_singleton.mp hs
      exact absurd (congrArg (Event.token · (.ok token)) hnumber) (he (.ok token))
  | closed t result ht => exact ⟨s, List.mem_of_mem_filter hs, hnumber⟩
  | _ => exact ⟨s, hs, hnumber⟩

/-- What happens to a request while its token is being fetched: nothing. -/
lemma run_untouched (hn : n < d.requests) (later : List Event)
    (hlater : ∀ result, Event.token n result ∉ later) :
    (∀ p : PendingRequest, p.number = n → (p ∈ (d.run later).fetching ↔ p ∈ d.fetching)) ∧
      ((d.run later).HasSession n → d.HasSession n) := by
  induction later generalizing d with
  | nil => exact ⟨fun p hp => Iff.rfl, id⟩
  | cons e later ih =>
    have hmove := step_move d e
    have he : ∀ result, e ≠ .token n result :=
      fun result heq => hlater result (heq ▸ List.mem_cons_self)
    obtain ⟨hfetching, hsession⟩ := ih (Nat.lt_of_lt_of_le hn hmove.requests_le)
      fun result hmem => hlater result (List.mem_cons_of_mem e hmem)
    refine ⟨fun p hp => ?_, fun hopen => hmove.hasSession he (hsession hopen)⟩
    exact (hfetching p hp).trans (hmove.mem_fetching_iff hn he hp)

/-- Only a valid request is fetched a token for. -/
lemma mem_fetching_request_iff {maxSessions : Nat} (h : d.Balanced maxSessions) (r : Request)
    {p : PendingRequest} (hp : p.number = d.requests) :
    p ∈ (d.step (.request r)).fetching ↔ r.validate = .ok () ∧ p = ⟨d.requests, r⟩ := by
  have hnew : p ∉ d.fetching := by
    intro hmem
    have hlt := h.lt_requests p.number
      (List.mem_append_left _ (List.mem_map_of_mem (f := fun p => p.number) hmem))
    exact Nat.lt_irrefl _ (hp ▸ hlt)
  have hmove := request_move d r
  generalize d.step (.request r) = d' at hmove
  cases hmove with
  | ignored _ e he => simp [ignored, hnew, he]
  | asked _ hr => simp [asked, hnew, hr]

lemma not_hasSession_request {maxSessions : Nat} (h : d.Balanced maxSessions) (r : Request) :
    ¬(d.step (.request r)).HasSession d.requests := by
  intro hopen
  obtain ⟨s, hs, hnumber⟩ := (step_move d (.request r)).hasSession nofun hopen
  have hlt := h.lt_requests s.number
    (List.mem_append_right _ (List.mem_map_of_mem (f := fun s => s.number) hs))
  exact Nat.lt_irrefl _ (hnumber ▸ hlt)

lemma requests_request (d : Desk) (r : Request) :
    (d.step (.request r)).requests = d.requests + 1 := by
  have hmove := request_move d r
  generalize d.step (.request r) = d' at hmove
  cases hmove <;> rfl

lemma registry_request (d : Desk) (r : Request) : (d.step (.request r)).registry = d.registry := by
  have hmove := request_move d r
  generalize d.step (.request r) = d' at hmove
  cases hmove <;> rfl

/-- The token of a request, if it is waited for, opens a session exactly if it is there and a
slot is free; otherwise the registry is as before. -/
lemma token_outcome {r : Request} (hnone : ¬d.HasSession n)
    (hfetching : ∀ p : PendingRequest, p.number = n →
      (p ∈ d.fetching ↔ r.validate = .ok () ∧ p = ⟨n, r⟩))
    (result : Except Auth.TokenError String) :
    ((d.step (.token n result)).HasSession n ↔
        r.validate = .ok () ∧ (∃ token, result = .ok token) ∧
          d.registry.isFree r.session = true) ∧
      (¬(d.step (.token n result)).HasSession n →
        (d.step (.token n result)).registry = d.registry) := by
  have hmove := token_move d n result
  generalize d.step (.token n result) = d' at hmove
  cases hmove with
  | opened p token hp hfree =>
    obtain ⟨hr, hpr⟩ := (hfetching p rfl).mp hp
    have hsame : p.request = r := congrArg PendingRequest.request hpr
    have hopen : (d.opened p token).HasSession p.number :=
      ⟨⟨p.number, p.request, token⟩, List.mem_append_right _ (List.mem_singleton_self _), rfl⟩
    exact ⟨iff_of_true hopen ⟨hr, ⟨token, rfl⟩, hsame ▸ hfree⟩, fun hnot => absurd hopen hnot⟩
  | rejected p token hp hfull =>
    have hsame : p.request = r :=
      congrArg PendingRequest.request ((hfetching p rfl).mp hp).2
    exact ⟨iff_of_false hnone fun h => hfull (hsame ▸ h.2.2), fun _ => rfl⟩
  | refused p e hp =>
    exact ⟨iff_of_false hnone fun ⟨_, ⟨_, htoken⟩, _⟩ => (nomatch htoken), fun _ => rfl⟩
  | unasked n result h =>
    have hinvalid : ¬r.validate = .ok () :=
      fun hr => h ⟨n, r⟩ ((hfetching ⟨n, r⟩ rfl).mpr ⟨hr, rfl⟩) rfl
    exact ⟨iff_of_false hnone fun h => hinvalid h.1, fun _ => rfl⟩

/-! ## Tokens, and slots that are given back -/

/-- Whether a valid request arrives. -/
def Event.isValidRequest : Event → Bool
  | .request r => r.validate.isOk
  | _ => false

/-- An event gives a slot back: a session ends, or a slot that was taken directly is
released. -/
def GivesBack (d : Desk) : Event → Prop
  | .ended n _ => d.HasSession n
  | .release id => id ∈ d.direct
  | _ => False

lemma Move.tokenCalls (h : Move d e d') :
    d'.tokenCalls = d.tokenCalls + if e.isValidRequest then 1 else 0 := by
  cases h with
  | ignored r e he => simp [Desk.ignored, Event.isValidRequest, he, Except.isOk, Except.toBool]
  | asked r hr => simp [Desk.asked, Event.isValidRequest, hr, Except.isOk, Except.toBool]
  | _ => rfl

lemma tokenCalls_run (d : Desk) (events : List Event) :
    (d.run events).tokenCalls = d.tokenCalls + events.countP Event.isValidRequest := by
  induction events generalizing d with
  | nil => rfl
  | cons e events ih =>
    rw [run, List.foldl_cons, ← run, ih, (step_move d e).tokenCalls, List.countP_cons]
    omega

/-- The count is lowered only by a slot that is given back, and is positive then. -/
lemma Move.live {maxSessions : Nat} (h : Move d e d') (hd : d.Balanced maxSessions) :
    (d.GivesBack e → 0 < d.registry.live ∧ d'.registry.live + 1 = d.registry.live) ∧
      (¬d.GivesBack e → d.registry.live ≤ d'.registry.live) := by
  have hdrop {id : String} (hid : id ∈ d.slots) :
      0 < d.registry.live ∧ (d.registry.drop id).live + 1 = d.registry.live :=
    ⟨hd.registry.live_pos (hd.mem_held hid), hd.registry.live_drop (hd.mem_held hid)⟩
  cases h with
  | opened | lent => exact ⟨False.elim, fun _ => Nat.le_succ _⟩
  | closed s result hs =>
    exact ⟨fun _ => hdrop (Balanced.session_mem_slots hs), fun hnot => absurd ⟨s, hs, rfl⟩ hnot⟩
  | repaid id hid =>
    exact ⟨fun _ => hdrop (Balanced.direct_mem_slots hid), fun hnot => absurd hid hnot⟩
  | unopened n result hno =>
    exact ⟨fun ⟨s, hs, hnumber⟩ => absurd hnumber (hno s hs), fun _ => Nat.le_refl _⟩
  | unlent id hid => exact ⟨fun hmem => absurd hmem hid, fun _ => Nat.le_refl _⟩
  | _ => exact ⟨False.elim, fun _ => Nat.le_refl _⟩

end

/-! ## The end of all sessions -/

lemma ended_eq (d : Desk) (n : Nat) (result : Except StartError Unit) :
    (d.step (.ended n result)).sessions = d.sessions.filter (·.number != n) ∧
      (d.step (.ended n result)).direct = d.direct := by
  have hmove := ended_move d n result
  generalize d.step (.ended n result) = d' at hmove
  cases hmove with
  | closed s result hs => exact ⟨rfl, rfl⟩
  | unopened n result hno =>
    refine ⟨(List.filter_eq_self.mpr fun s hs => ?_).symm, rfl⟩
    simpa using hno s hs

lemma run_ended (d : Desk) (results : LiveSession → Except StartError Unit)
    (gone : List LiveSession) :
    (d.run (gone.map fun s => .ended s.number (results s))).sessions
        = d.sessions.filter (fun s => !(gone.map (·.number)).contains s.number) ∧
      (d.run (gone.map fun s => .ended s.number (results s))).direct = d.direct := by
  induction gone generalizing d with
  | nil => simp [run]
  | cons s gone ih =>
    obtain ⟨hsessions, hdirect⟩ := ih (d.step (.ended s.number (results s)))
    obtain ⟨hfilter, hsame⟩ := ended_eq d s.number (results s)
    rw [List.map_cons, run, List.foldl_cons, ← run, hsessions, hdirect, hfilter, hsame,
      List.filter_filter]
    refine ⟨List.filter_congr fun t ht => ?_, rfl⟩
    rw [List.map_cons, List.contains_cons, Bool.not_or, bne, Bool.and_comm]

/-! ## Main result -/

namespace Balanced

variable {maxSessions : Nat} {d : Desk}

lemma live_eq (h : d.Balanced maxSessions) :
    d.registry.live = d.sessions.length + d.direct.length := by
  rw [h.registry.live_eq, ← h.slots_perm.length_eq, slots, List.length_append, List.length_map]

/-- A slot for an id is free if there are fewer live sessions than allowed, and the id is not
held. -/
lemma isFree_iff (h : d.Balanced maxSessions) (id : String) :
    d.registry.isFree id = true ↔ d.registry.live < maxSessions ∧ id ∉ d.registry.held := by
  rw [Registry.isFree_iff, h.max_eq, h.registry.ids_eq]

/-- A slot is taken directly exactly if it is free. -/
lemma direct_acquire (h : d.Balanced maxSessions) (id : String) :
    (d.step (.acquire id)).direct
      = if d.registry.live < maxSessions ∧ id ∉ d.registry.held then id :: d.direct
        else d.direct := by
  have hmove := step_move d (.acquire id)
  generalize d.step (.acquire id) = d' at hmove
  cases hmove with
  | lent _ hfree => rw [if_pos ((h.isFree_iff id).mp hfree)]; rfl
  | denied _ hfull => rw [if_neg (mt (h.isFree_iff id).mpr hfull)]

/-- What comes of a request, whatever happens before its token is there. -/
lemma request_outcome (h : d.Balanced maxSessions) (r : Request) (later : List Event)
    (result : Except Auth.TokenError String)
    (hlater : ∀ other, Event.token d.requests other ∉ later) :
    let waiting := (d.step (.request r)).run later
    let done := waiting.step (.token d.requests result)
    (d.step (.request r)).registry = d.registry ∧
      ¬waiting.HasSession d.requests ∧
      (done.HasSession d.requests ↔
        r.validate = .ok () ∧ (∃ token, result = .ok token) ∧
          waiting.registry.live < maxSessions ∧ r.session ∉ waiting.registry.held) ∧
      (¬done.HasSession d.requests → done.registry = waiting.registry) := by
  have hrequest := h.move (step_move d (.request r))
  have hwaiting := hrequest.run later
  have hlt : d.requests < (d.step (.request r)).requests := by
    rw [requests_request]
    exact Nat.lt_succ_self _
  obtain ⟨hfetching, hsession⟩ := run_untouched hlt later hlater
  have hnone := fun hopen => not_hasSession_request h r (hsession hopen)
  have houtcome := token_outcome hnone
    (fun p hp => (hfetching p hp).trans (mem_fetching_request_iff h r hp)) result
  rw [hwaiting.isFree_iff] at houtcome
  exact ⟨registry_request d r, hnone, houtcome.1, houtcome.2⟩

/-- When all sessions have ended, only the slots taken directly are left. -/
lemma live_run_ended (h : d.Balanced maxSessions) (results : LiveSession → Except StartError Unit) :
    (d.run (d.sessions.map fun s => .ended s.number (results s))).registry.live
      = d.direct.length := by
  obtain ⟨hsessions, hdirect⟩ := run_ended d results d.sessions
  have hnone : (d.run (d.sessions.map fun s => .ended s.number (results s))).sessions = [] := by
    rw [hsessions]
    refine List.filter_eq_nil_iff.mpr fun s hs => ?_
    simpa using ⟨s, hs, rfl⟩
  rw [(h.run _).live_eq, hnone, hdirect, List.length_nil, Nat.zero_add]

end Balanced

/-- **Sessions and slots.**  Whatever has happened, the number of live sessions is the number of
slots that are held, which are those of the sessions and those taken directly; it is the number
of ids, is at most the maximum, and no id is held twice.  It is lowered only when a slot is
given back, and is positive then.  A slot is taken directly exactly if there are fewer live
sessions than allowed and its id is not held.  A token has been fetched for every valid request,
and for no other.  A request opens a session exactly if it is valid, its token is there, and a
slot is free for it at that moment; otherwise the registry is as before.  When all sessions have
ended, however they have, only the slots taken directly are left. -/
theorem registry_run (maxSessions : Nat) (events : List Event) :
    let d := (ofMax maxSessions).run events
    d.registry.live = d.registry.held.length ∧
      (d.sessions.map (·.request.session) ++ d.direct).Perm d.registry.held ∧
      d.registry.held.Nodup ∧
      d.registry.live = d.registry.ids.length ∧ d.registry.ids.Nodup ∧
      (∀ id, id ∈ d.registry.ids ↔ id ∈ d.registry.held) ∧
      d.registry.live ≤ maxSessions ∧
      (∀ e, (d.GivesBack e →
          0 < d.registry.live ∧ (d.step e).registry.live + 1 = d.registry.live) ∧
        (¬d.GivesBack e → d.registry.live ≤ (d.step e).registry.live)) ∧
      (∀ id, (d.step (.acquire id)).direct
        = if d.registry.live < maxSessions ∧ id ∉ d.registry.held then id :: d.direct
          else d.direct) ∧
      d.tokenCalls = events.countP Event.isValidRequest ∧
      (∀ r later result, (∀ other, Event.token d.requests other ∉ later) →
        let waiting := (d.step (.request r)).run later
        let done := waiting.step (.token d.requests result)
        (d.step (.request r)).registry = d.registry ∧
          ¬waiting.HasSession d.requests ∧
          (done.HasSession d.requests ↔
            r.validate = .ok () ∧ (∃ token, result = .ok token) ∧
              waiting.registry.live < maxSessions ∧ r.session ∉ waiting.registry.held) ∧
          (¬done.HasSession d.requests → done.registry = waiting.registry)) ∧
      ∀ results : LiveSession → Except StartError Unit,
        (d.run (d.sessions.map fun s => .ended s.number (results s))).registry.live
          = d.direct.length := by
  intro d
  have hd : d.Balanced maxSessions := (Balanced.ofMax maxSessions).run events
  refine ⟨hd.registry.live_eq, hd.slots_perm, hd.registry.nodup, ?_, ?_, ?_, ?_,
    fun e => (step_move d e).live hd, hd.direct_acquire, ?_, hd.request_outcome,
    hd.live_run_ended⟩
  · rw [hd.registry.ids_eq, hd.registry.live_eq]
  · rw [hd.registry.ids_eq]
    exact hd.registry.nodup
  · intro id
    rw [hd.registry.ids_eq]
  · exact hd.max_eq ▸ hd.registry.live_le
  · rw [tokenCalls_run]
    exact Nat.zero_add _

/-- With one slot, the first valid request whose token is there has the session. -/
theorem registry_run_sample :
    let r : Request := ⟨"02:00:00:AA:BB:CC", "0b4f5a36-8f1e-4b0e-9d55-3f3c7d1c2a10"⟩
    let asked := (ofMax 1).step (.request r)
    (∀ other, Event.token 0 other ∉ ([] : List Event)) ∧
      r.validate = .ok () ∧ (asked.step (.token 0 (.ok "tok"))).HasSession 0 := by
  intro r asked
  have hlater : ∀ other, Event.token 0 other ∉ ([] : List Event) := fun _ => List.not_mem_nil
  have hvalid : r.validate = .ok () := by decide +kernel
  obtain ⟨-, -, -, -, -, -, -, -, -, -, hrequest, -⟩ := registry_run 1 []
  obtain ⟨hregistry, -, hopen, -⟩ := hrequest r [] (.ok "tok") hlater
  refine ⟨hlater, hvalid, hopen.mpr ⟨hvalid, ⟨"tok", rfl⟩, ?_, ?_⟩⟩
  · exact Nat.lt_of_le_of_lt (Nat.le_of_eq (congrArg Registry.live hregistry)) Nat.zero_lt_one
  · exact fun hheld => List.not_mem_nil (congrArg Registry.held hregistry ▸ hheld)

end FleetAgent.Shell.Desk
