/-
# Identifiers and their spellings

The handler of requests compares the ids of sessions as texts, while a request is checked by the
identifier that its text denotes, and one identifier has several spellings.  So two live sessions
never have the same text (`Balanced.eq_of_session`), but they may denote one identifier.

`Exclusive d` says that they do not, and that a request for an identifier that is live gets no
session.  Over all runs whose requests take their ids from a set of texts, this holds exactly if
the set is `SpelledOnce`: no identifier has two spellings in it.
-/
import FleetAgent.Proofs.Shell.Attach
import Mathlib.Data.List.Nodup
import Mathlib.Data.Set.Defs

namespace FleetAgent.Shell

/-- The identifier that the session of a request denotes. -/
def Request.uuid? (r : Request) : Option Uuid := Uuid.ofString? r.session

/-- No identifier has two spellings in a set of texts. -/
def SpelledOnce (ids : Set String) : Prop :=
  ∀ a ∈ ids, ∀ b ∈ ids, (Uuid.ofString? a).isSome → Uuid.ofString? a = Uuid.ofString? b → a = b

lemma isSome_uuid?_of_validate {r : Request} (h : r.validate = .ok ()) : r.uuid?.isSome := by
  rw [Request.validate] at h
  split_ifs at h with hnone
  rwa [Option.isNone_iff_eq_none, ← ne_eq, ← Option.isSome_iff_ne_none] at hnone

namespace Desk

/-- No two live sessions denote one identifier, and the token of a request whose identifier is live
opens no session. -/
structure Exclusive (d : Desk) : Prop where
  unique : ∀ s ∈ d.sessions, ∀ t ∈ d.sessions, s.request.uuid? = t.request.uuid? → s = t
  rejects : ∀ s ∈ d.sessions, ∀ p ∈ d.fetching, p.request.uuid? = s.request.uuid? → ∀ token,
    (d.step (.token p.number (.ok token))).sessions = d.sessions

/-! ## Where requests come from -/

/-- The requests that are not over are valid, and their ids are in a set. -/
structure Drawn (ids : Set String) (d : Desk) : Prop where
  fetching : ∀ p ∈ d.fetching, p.request.validate = .ok () ∧ p.request.session ∈ ids
  sessions : ∀ s ∈ d.sessions, s.request.validate = .ok () ∧ s.request.session ∈ ids

section

variable {ids : Set String} {d d' : Desk} {e : Event}

lemma Drawn.answered (h : d.Drawn ids) (n : Nat) : (d.answered n).Drawn ids :=
  { h with fetching := fun p hp => h.fetching p (List.mem_of_mem_filter hp) }

lemma Drawn.move (h : d.Drawn ids) (hmove : Move d e d')
    (he : ∀ r, e = .request r → r.session ∈ ids) : d'.Drawn ids := by
  cases hmove with
  | ignored r => exact { h with }
  | asked r hr =>
    refine { h with fetching := fun p hp => ?_ }
    rcases List.mem_append.mp hp with hp | hp
    · exact h.fetching p hp
    · obtain rfl := List.mem_singleton.mp hp
      exact ⟨hr, he r rfl⟩
  | opened p token hp hfree =>
    refine { h.answered p.number with sessions := fun s hs => ?_ }
    rcases List.mem_append.mp hs with hs | hs
    · exact h.sessions s hs
    · obtain rfl := List.mem_singleton.mp hs
      exact h.fetching p hp
  | rejected p | refused p => exact h.answered p.number
  | closed s => exact { h with sessions := fun t ht => h.sessions t (List.mem_of_mem_filter ht) }
  | lent | repaid => exact { h with }
  | _ => exact h

lemma Drawn.run (h : d.Drawn ids) {events : List Event}
    (hevents : ∀ r, Event.request r ∈ events → r.session ∈ ids) : (d.run events).Drawn ids := by
  induction events generalizing d with
  | nil => exact h
  | cons e events ih =>
    refine ih (h.move (step_move d e) fun r hr => ?_) fun r hr => ?_
    · exact hevents r (hr ▸ List.mem_cons_self)
    · exact hevents r (List.mem_cons_of_mem e hr)

lemma drawn_ofMax (maxSessions : Nat) : (ofMax maxSessions).Drawn ids where
  fetching := nofun
  sessions := nofun

/-! ## Texts -/

/-- No two live sessions have the same text. -/
lemma Balanced.eq_of_session {maxSessions : Nat} (h : d.Balanced maxSessions)
    {s t : LiveSession} (hs : s ∈ d.sessions) (ht : t ∈ d.sessions)
    (hsame : s.request.session = t.request.session) : s = t := by
  have hslots : d.slots.Nodup := h.slots_perm.nodup_iff.mpr h.registry.nodup
  exact List.inj_on_of_nodup_map (List.nodup_append.mp hslots).1 hs ht hsame

/-- The token of a request opens a session exactly if fewer sessions are live than allowed, and
the text of the request is not held. -/
lemma Balanced.sessions_token {maxSessions : Nat} (h : d.Balanced maxSessions)
    {p : PendingRequest} (hp : p ∈ d.fetching) (token : String) :
    (d.step (.token p.number (.ok token))).sessions
      = if d.registry.live < maxSessions ∧ p.request.session ∉ d.registry.held then
          d.sessions ++ [⟨p.number, p.request, token⟩]
        else d.sessions := by
  have heq {q : PendingRequest} (hq : q ∈ d.fetching) (hnumber : q.number = p.number) : q = p :=
    List.inj_on_of_nodup_map h.nodup_fetching hq hp hnumber
  have hmove := token_move d p.number (.ok token)
  generalize hn : p.number = n at hmove
  generalize d.step (.token n (.ok token)) = d' at hmove
  cases hmove with
  | opened q token hq hfree =>
    obtain rfl := heq hq hn.symm
    rw [if_pos ((h.isFree_iff _).mp hfree)]
    rfl
  | rejected q token hq hfull =>
    obtain rfl := heq hq hn.symm
    rw [if_neg (mt (h.isFree_iff _).mpr hfull)]
    rfl
  | unasked n result hno => exact absurd hn (hno p hp)

lemma Balanced.exclusive {maxSessions : Nat} (h : d.Balanced maxSessions) (hd : d.Drawn ids)
    (hids : SpelledOnce ids) : d.Exclusive where
  unique s hs t ht hsame := by
    obtain ⟨hvalid, hsid⟩ := hd.sessions s hs
    exact h.eq_of_session hs ht
      (hids _ hsid _ (hd.sessions t ht).2 (isSome_uuid?_of_validate hvalid) hsame)
  rejects s hs p hp hsame token := by
    obtain ⟨hvalid, hpid⟩ := hd.fetching p hp
    have htext : p.request.session = s.request.session :=
      hids _ hpid _ (hd.sessions s hs).2 (isSome_uuid?_of_validate hvalid) hsame
    have hheld : p.request.session ∈ d.registry.held :=
      htext ▸ h.mem_held (session_mem_slots hs)
    rw [h.sessions_token hp, if_neg fun hfree => hfree.2 hheld]

end

/-! ## Two spellings -/

/-- A hardware address for requests. -/
def sampleMac : String := "02:00:00:AA:BB:CC"

lemma validate_sampleMac {id : String} (h : (Uuid.ofString? id).isSome) :
    (Request.mk sampleMac id).validate = .ok () := by
  have hmac : (Device.Mac.ofString? sampleMac).isNone = false := by decide +kernel
  have hid : (Uuid.ofString? id).isNone = false := by simpa using h
  rw [Request.validate, hid, hmac]
  rfl

/-- Two requests, with the token of the first one there before the second one arrives. -/
def twoRequests (a b : String) : List Event :=
  [.request ⟨sampleMac, a⟩, .token 0 (.ok "tok"), .request ⟨sampleMac, b⟩, .token 1 (.ok "tok")]

/-- Where two sessions are allowed, different texts get a session each. -/
lemma sessions_twoRequests {a b : String} (ha : (Uuid.ofString? a).isSome)
    (hb : (Uuid.ofString? b).isSome) (hne : a ≠ b) :
    ((ofMax 2).run (twoRequests a b)).sessions
      = [⟨0, ⟨sampleMac, a⟩, "tok"⟩, ⟨1, ⟨sampleMac, b⟩, "tok"⟩] := by
  simp [run, twoRequests, step, validate_sampleMac ha, validate_sampleMac hb, ofMax, openSession,
    Registry.acquire, Registry.isFree, Registry.ofMax, hne.symm]

lemma not_exclusive_twoRequests {a b : String} (ha : (Uuid.ofString? a).isSome) (hne : a ≠ b)
    (hsame : Uuid.ofString? a = Uuid.ofString? b) :
    ¬((ofMax 2).run (twoRequests a b)).Exclusive := by
  intro h
  have hsessions := sessions_twoRequests ha (hsame ▸ ha) hne
  have heq := h.unique ⟨0, ⟨sampleMac, a⟩, "tok"⟩ (by simp [hsessions])
    ⟨1, ⟨sampleMac, b⟩, "tok"⟩ (by simp [hsessions]) hsame
  exact absurd (congrArg LiveSession.number heq) Nat.zero_ne_one

/-! ## Main result -/

/-- **One session for an identifier.**  In all runs whose requests take their ids from a set of
texts, no two live sessions denote one identifier and no request for a live one gets a session, if
and only if no identifier has two spellings in the set.  It is the texts that are told apart:
whatever has happened, no two live sessions have the same one, and the token of a request opens a
session exactly if fewer sessions are live than allowed and no slot is held under its text. -/
theorem exclusive_iff_spelledOnce (ids : Set String) :
    ((∀ (maxSessions : Nat) (events : List Event),
      (∀ r, Event.request r ∈ events → r.session ∈ ids) →
      ((ofMax maxSessions).run events).Exclusive) ↔ SpelledOnce ids) ∧
    ∀ (maxSessions : Nat) (events : List Event),
      let d := (ofMax maxSessions).run events
      (∀ s ∈ d.sessions, ∀ t ∈ d.sessions, s.request.session = t.request.session → s = t) ∧
      ∀ p ∈ d.fetching, ∀ token,
        (d.step (.token p.number (.ok token))).sessions
          = if d.registry.live < maxSessions ∧ p.request.session ∉ d.registry.held then
              d.sessions ++ [⟨p.number, p.request, token⟩]
            else d.sessions := by
  refine ⟨⟨fun h a ha b hb hsome hsame => ?_, fun hids maxSessions events hevents => ?_⟩,
    fun maxSessions events => ?_⟩
  · by_contra hne
    refine not_exclusive_twoRequests hsome hne hsame (h 2 _ fun r hr => ?_)
    -- the two requests are all that arrive
    simp only [twoRequests, List.mem_cons, Event.request.injEq, reduceCtorEq, List.not_mem_nil,
      or_false, false_or] at hr
    rcases hr with rfl | rfl
    · exact ha
    · exact hb
  · exact ((Balanced.ofMax maxSessions).run events).exclusive
      ((drawn_ofMax maxSessions).run hevents) hids
  · have hd := (Balanced.ofMax maxSessions).run events
    exact ⟨fun s hs t ht => hd.eq_of_session hs ht, fun p hp => hd.sessions_token hp⟩

/-- **An identifier may have two sessions.**  Its digits with hyphens and its digits alone are two
texts. -/
theorem not_exclusive :
    ¬∀ (maxSessions : Nat) (events : List Event), ((ofMax maxSessions).run events).Exclusive := by
  intro h
  exact not_exclusive_twoRequests (a := "0b4f5a36-8f1e-4b0e-9d55-3f3c7d1c2a10")
    (b := "0b4f5a368f1e4b0e9d553f3c7d1c2a10") (by decide +kernel) (by decide) (by decide +kernel)
    (h 2 _)

end Desk

end FleetAgent.Shell
