/-
# Tokens are used within their lifetime

The cached token is the one that the last successful registration has granted, its value and its
expiry together (`Origin`).  A registration made at the moment `issuedAt` that grants a token for
some seconds lets it be used for as long, less the grace if that leaves anything.  So whoever is
served from the cache gets a token whose lifetime is not over, and lasts for at least the grace
still if it was longer than the grace at all (`served_in_time`).

Lifetimes are counted in milliseconds of 64 bits: what is longer counts as the longest
(`countedLifetime`).  A grace that is not shorter than the longest lifetime that is counted
therefore leaves nothing of any lifetime, although a lifetime may be longer
(`not_served_within_grace`).
-/
import FleetAgent.Proofs.Auth.Provider
import FleetAgent.Proofs.Time.Backoff

namespace FleetAgent.Auth

/-! ## How long a token is used -/

/-- A lifetime in seconds as it is counted: in milliseconds of 64 bits. -/
def countedLifetime (lifetime : Nat) : Nat :=
  min (lifetime * 1000) (Numeral.unsigned64End - 1)

lemma countedLifetime_le (lifetime : Nat) : countedLifetime lifetime ≤ lifetime * 1000 :=
  Nat.min_le_left _ _

lemma usableLifetime_le (graceMs lifetime : Nat) :
    usableLifetime graceMs lifetime ≤ countedLifetime lifetime := by
  rw [usableLifetime]
  split
  · exact Nat.sub_le _ _
  · exact le_rfl

/-- A lifetime that is longer than the grace is shortened by it. -/
lemma usableLifetime_add {graceMs lifetime : Nat} (h : graceMs < countedLifetime lifetime) :
    usableLifetime graceMs lifetime + graceMs = countedLifetime lifetime := by
  rw [usableLifetime]
  simp only [countedLifetime] at h ⊢
  rw [if_pos h, Nat.sub_add_cancel h.le]

/-- What an answer that grants a token says. -/
lemma outcome_eq_granted {graceMs timestamp : Nat} {r : Http.Reply} {t : Token}
    (h : outcome graceMs timestamp r = .granted t) :
    ∃ answer lifetime, r = .response answer ∧ answer.status = 200 ∧
      granted? answer = some (t.value, lifetime) ∧
      t.expiresAt = timestamp + usableLifetime graceMs lifetime := by
  cases r with
  | unreachable => exact nomatch h
  | hangUp => exact nomatch h
  | response answer =>
    rw [outcome] at h
    split_ifs at h with hstatus
    cases hgranted : granted? answer with
    | none =>
      rw [hgranted] at h
      exact nomatch h
    | some granted =>
      obtain ⟨value, lifetime⟩ := granted
      rw [hgranted] at h
      dsimp only at h
      split_ifs at h with hfits
      obtain rfl := Registration.granted.inj h
      exact ⟨answer, lifetime, rfl, hstatus, hgranted, rfl⟩

namespace Provider

variable {p : Provider} {s s' : State} {cached after : Option Token} {trace : List Effect}

/-! ## Where the cached token comes from -/

/-- The turn of a caller that is granted a token: its registration was made at the moment
`issuedAt`, and the answer grants the token's value for a lifetime in seconds, from which the
token's expiry is computed. -/
inductive Issue (p : Provider) (issuedAt lifetime : Nat) (t : Token) : List Effect → Prop where
  | granted (caller now : Nat) (request : Http.Request) (answer : Http.Response)
      (hrequest : registration p.base p.device p.key issuedAt = .ok request)
      (hstatus : answer.status = 200)
      (hgranted : granted? answer = some (t.value, lifetime))
      (hexpires : t.expiresAt = issuedAt + usableLifetime p.graceMs lifetime) :
      Issue p issuedAt lifetime t
        [.looked caller now, .began caller issuedAt, .sent caller request,
          .ended caller (.response answer), .cached t, .returned caller (.ok t.value)]

/-- No token is cached in a trace. -/
def CachesNothing (trace : List Effect) : Prop :=
  ∀ t, .cached t ∉ trace

/-- A token is the last one that has been granted in a trace. -/
inductive LastIssued (p : Provider) (issuedAt lifetime : Nat) (t : Token) :
    List Effect → Prop where
  | turn (before turn after : List Effect) (hturn : Issue p issuedAt lifetime t turn)
      (hafter : CachesNothing after) : LastIssued p issuedAt lifetime t (before ++ turn ++ after)

/-- The token that is cached after a trace is the last one that has been granted in it. -/
structure Origin (p : Provider) (trace : List Effect) (cached : Option Token) : Prop where
  nothing : cached = none → CachesNothing trace
  issued : ∀ t, cached = some t → ∃ issuedAt lifetime, LastIssued p issuedAt lifetime t trace

lemma CachesNothing.append {more : List Effect} (h : CachesNothing trace)
    (hmore : CachesNothing more) : CachesNothing (trace ++ more) :=
  fun t ht => (List.mem_append.mp ht).elim (h t) (hmore t)

lemma LastIssued.append {issuedAt lifetime : Nat} {t : Token} {more : List Effect}
    (h : LastIssued p issuedAt lifetime t trace) (hmore : CachesNothing more) :
    LastIssued p issuedAt lifetime t (trace ++ more) := by
  obtain ⟨before, turn, after, hturn, hafter⟩ := h
  rw [List.append_assoc]
  exact .turn before turn _ hturn (hafter.append hmore)

lemma Origin.append {more : List Effect} (h : Origin p trace cached)
    (hmore : CachesNothing more) : Origin p (trace ++ more) cached where
  nothing hnone := (h.nothing hnone).append hmore
  issued t ht := by
    obtain ⟨issuedAt, lifetime, hissued⟩ := h.issued t ht
    exact ⟨issuedAt, lifetime, hissued.append hmore⟩

lemma Origin.of_issue {issuedAt lifetime : Nat} {t : Token} {turn : List Effect}
    (h : Issue p issuedAt lifetime t turn) : Origin p (trace ++ turn) (some t) where
  nothing hnone := nomatch hnone
  issued u hu := by
    obtain rfl := Option.some.inj hu
    have hlast := LastIssued.turn trace turn [] h nofun
    rw [List.append_nil] at hlast
    exact ⟨issuedAt, lifetime, hlast⟩

lemma Silent.cachesNothing {caller now : Nat} {turn : List Effect}
    (h : Silent p cached caller now turn) : CachesNothing turn := by
  intro t ht
  cases h <;> simp at ht

lemma Opening.cachesNothing {caller now timestamp : Nat} {opening : List Effect}
    (h : Opening p cached caller now timestamp opening) : CachesNothing opening := by
  intro t ht
  cases h
  simp at ht

/-- A turn caches the token that it is granted, and none otherwise. -/
lemma Origin.turn {caller : Nat} {turn : List Effect} (h : Origin p trace cached)
    (hturn : Turn p cached caller turn after) : Origin p (trace ++ turn) after := by
  cases hturn with
  | silent now turn hsilent => exact h.append hsilent.cachesNothing
  | registered now timestamp r opening closing after hopening hclosing =>
    cases hclosing with
    | granted t ht =>
      obtain ⟨answer, lifetime, rfl, hstatus, hgranted, hexpires⟩ := outcome_eq_granted ht
      obtain ⟨request, -, hrequest⟩ := hopening
      exact .of_issue (.granted caller now request answer hrequest hstatus hgranted hexpires)
    | refused e he =>
      refine h.append (hopening.cachesNothing.append fun t ht => ?_)
      simp at ht
    | crashed hcrash =>
      refine h.append (hopening.cachesNothing.append fun t ht => ?_)
      simp at ht

lemma Turns.origin {n : Nat} (h : Turns p n trace cached) : Origin p trace cached := by
  induction h with
  | none => exact ⟨fun _ => nofun, nofun⟩
  | next n trace turn cached after htrace hturn ih => exact ih.turn hturn

/-- The beginning of a turn that is not over caches nothing. -/
lemma Serial.origin {n : Nat} (h : Serial p n s trace) : Origin p trace s.cached := by
  obtain ⟨past, current, rfl, hturns, hcurrent⟩ := h.turns
  refine hturns.origin.append ?_
  generalize s.refreshes = refreshes at hcurrent
  cases hcurrent with
  | nothing => exact nofun
  | waits now timestamp opening hopening => exact hopening.cachesNothing

lemma origin_run (p : Provider) (events : List Event) :
    Origin p (run p .initial events).2 (run p .initial events).1.cached := by
  obtain ⟨n, hserial⟩ := (Serial.initial p).run events
  exact hserial.origin

/-! ## When it is used -/

/-- A caller that gets a token at once is served from the cache, while the token is valid. -/
lemma cached_of_returned {now timestamp caller : Nat} {value : String}
    (h : .returned caller (.ok value) ∈ (step p s (.locked now timestamp)).2) :
    ∃ t, s.cached = some t ∧ t.value = value ∧ now < t.expiresAt := by
  have hmove := step_move p s (.locked now timestamp)
  generalize (step p s (.locked now timestamp)).1 = s' at hmove
  generalize (step p s (.locked now timestamp)).2 = effects at h hmove
  cases hmove with
  | idle => exact absurd h List.not_mem_nil
  | turned first _ _ rest turn hfree hwaiting hsilent =>
    cases hsilent with
    | served t hcached hvalid =>
      simp only [List.mem_cons, reduceCtorEq, Effect.returned.injEq, Except.ok.injEq,
        List.not_mem_nil, or_false, false_or] at h
      exact ⟨t, hcached, h.2.symm, hvalid⟩
    | unsigned => simp at h
  | opened first _ _ rest opening hfree hwaiting hopening =>
    cases hopening
    simp at h

/-- A lifetime in seconds that began at a moment lasts for more than the grace still. -/
def Outlasts (grace : Time.Duration) (issuedAt lifetime now : Nat) : Prop :=
  now * 1000000 + grace.toNanos < issuedAt * 1000000 + lifetime * Time.nanosPerSecond

lemma LastIssued.expiresAt_eq {issuedAt lifetime : Nat} {t : Token}
    (h : LastIssued p issuedAt lifetime t trace) :
    t.expiresAt = issuedAt + usableLifetime p.graceMs lifetime := by
  obtain ⟨before, turn, after, hturn, -⟩ := h
  obtain ⟨caller, now, request, answer, -, -, -, hexpires⟩ := hturn
  exact hexpires

/-- A moment at which a token is valid is within its lifetime, and in front of its end by more
than the grace that was taken off. -/
lemma LastIssued.within {issuedAt lifetime now : Nat} {t : Token}
    (h : LastIssued p issuedAt lifetime t trace) (hvalid : now < t.expiresAt) :
    now < issuedAt + lifetime * 1000 ∧
      (p.graceMs < countedLifetime lifetime →
        now + p.graceMs < issuedAt + countedLifetime lifetime) := by
  rw [h.expiresAt_eq] at hvalid
  refine ⟨?_, fun hgrace => ?_⟩
  · have husable := usableLifetime_le p.graceMs lifetime
    have hcounted := countedLifetime_le lifetime
    omega
  · have husable := usableLifetime_add hgrace
    omega

/-- A grace that is shorter than the longest lifetime that is counted is taken off in full. -/
lemma outlasts_of_lt {grace : Time.Duration} {issuedAt lifetime now : Nat}
    (hgrace : grace.toMillis < Numeral.unsigned64End - 1)
    (hlong : grace.toNanos < lifetime * Time.nanosPerSecond)
    (h : grace.toMillis < countedLifetime lifetime →
      now + grace.toMillis < issuedAt + countedLifetime lifetime) :
    Outlasts grace issuedAt lifetime now := by
  have hmillis := grace.toMillis_eq
  have hcounted := countedLifetime_le lifetime
  have hlt : grace.toMillis < countedLifetime lifetime := by
    rw [countedLifetime, lt_min_iff]
    refine ⟨?_, hgrace⟩
    simp only [Time.nanosPerSecond] at hlong
    omega
  have hwithin := h hlt
  simp only [Outlasts, Time.nanosPerSecond]
  omega

/-! ## Replies -/

lemma exists_event_of_mem_run {events : List Event} {x : Effect} (h : x ∈ (run p s events).2) :
    ∃ s' e, e ∈ events ∧ x ∈ (step p s' e).2 ∧ (step p s' e).2 ⊆ (run p s events).2 := by
  induction events generalizing s with
  | nil => exact nomatch h
  | cons e events ih =>
    rcases List.mem_append.mp h with hx | hx
    · exact ⟨s, e, List.mem_cons_self, hx, List.subset_append_left _ _⟩
    · obtain ⟨s', e', he', hx, hsub⟩ := ih hx
      exact ⟨s', e', List.mem_cons_of_mem e he', hx, List.subset_append_of_subset_right _ hsub⟩

/-- Registrations end with the replies that come. -/
lemma reply_of_ended {events : List Event} {caller : Nat} {r : Http.Reply}
    (h : .ended caller r ∈ (run p s events).2) : .reply caller r ∈ events := by
  obtain ⟨s', e, he, hx, -⟩ := exists_event_of_mem_run h
  have hmove := step_move p s' e
  generalize (step p s' e).1 = s'' at hmove
  generalize (step p s' e).2 = effects at hx hmove
  cases hmove with
  | idle | called => exact nomatch hx
  | turned _ _ _ _ _ _ _ hsilent => cases hsilent <;> simp at hx
  | opened _ _ _ _ _ _ _ hopening => cases hopening; simp at hx
  | closed _ _ _ _ _ hclosing => cases hclosing <;> simp_all

/-- A token is granted by a reply that has come. -/
lemma LastIssued.exists_reply {events : List Event} {issuedAt lifetime : Nat} {t : Token}
    (h : LastIssued p issuedAt lifetime t (run p s events).2) :
    ∃ caller answer, .reply caller (.response answer) ∈ events ∧
      granted? answer = some (t.value, lifetime) := by
  generalize htrace : (run p s events).2 = trace at h
  obtain ⟨before, turn, after, hturn, -⟩ := h
  obtain ⟨caller, now, request, answer, -, -, hgranted, -⟩ := hturn
  refine ⟨caller, answer, reply_of_ended (p := p) (s := s) ?_, hgranted⟩
  rw [htrace]
  simp

/-! ## Two callers -/

/-- A device whose key signs everything alike. -/
def sampleProvider (grace : Time.Duration) : Provider :=
  ofGrace "http://fleet:5000" ⟨"02:00:00:00:00:01", "board", "1.0"⟩
    ⟨.ok "key", fun _ => .ok [1, 2, 3]⟩ grace

/-- An answer that grants a token for some seconds. -/
def sampleAnswer (lifetime : Nat) : Http.Response :=
  ⟨200, [Text.Utf8.encode (Json.Value.object
    [("token", .string "first"), ("expires", .number (.ofNat lifetime))]).render], true⟩

/-- The first caller registers at a moment and is granted a token for some seconds, and a second
caller waits. -/
def sampleEvents (timestamp lifetime : Nat) : List Event :=
  [.call, .locked timestamp timestamp, .reply 0 (.response (sampleAnswer lifetime)), .call]

/-- The only caller that waits is served while the cached token is valid. -/
lemma Fresh.returned_of_eq {t : Token} {n caller now : Nat}
    (hs : s = ⟨some t, n, [caller], none, []⟩) (hnow : now < t.expiresAt) (timestamp : Nat) :
    .returned caller (.ok t.value) ∈ (Provider.step p s (.locked now timestamp)).2 := by
  subst hs
  have hfresh : Fresh t ⟨some t, n, [caller], none, []⟩ := ⟨rfl, rfl, rfl⟩
  rw [hfresh.step_locked hnow timestamp rfl]
  exact List.mem_cons_of_mem _ (List.mem_singleton_self _)

/-- The lifetime of the token that is granted is the one in the answer. -/
lemma LastIssued.lifetime_eq {issuedAt lifetime granted timestamp : Nat}
    {t : Token} {value : String}
    (h : LastIssued p issuedAt lifetime t (run p s (sampleEvents timestamp granted)).2)
    (hgranted : granted? (sampleAnswer granted) = some (value, granted)) : lifetime = granted := by
  obtain ⟨caller, answer, hreply, hanswer⟩ := h.exists_reply
  simp only [sampleEvents, List.mem_cons, reduceCtorEq, Event.reply.injEq,
    Http.Reply.response.injEq, List.not_mem_nil, or_false, false_or] at hreply
  rw [hreply.2, hgranted] at hanswer
  exact congrArg Prod.snd (Option.some.inj hanswer.symm)

/-! ## Main result -/

/-- **Tokens are used within their lifetime.**  Whatever has happened, the cached token is the
last one that has been granted, with the expiry that was computed for its value.  A caller that
is served from the cache at the moment `now` gets this token, and `now` is within the lifetime
that it was granted for.  If that lifetime, as it is counted, is longer than the grace, then it is
not over for more than the grace still; and for a grace that is shorter than the longest lifetime
that is counted, this holds of the lifetime itself, to the nanosecond. -/
theorem served_in_time (base : String) (device : Device.Identity) (key : Device.Key)
    (grace : Time.Duration) (events : List Event) :
    let p := ofGrace base device key grace
    let s := (run p .initial events).1
    let trace := (run p .initial events).2
    Origin p trace s.cached ∧
      ∀ now timestamp caller value,
        .returned caller (.ok value) ∈ (step p s (.locked now timestamp)).2 →
        ∃ t issuedAt lifetime, s.cached = some t ∧ t.value = value ∧
          LastIssued p issuedAt lifetime t trace ∧
          now < issuedAt + lifetime * 1000 ∧
          (p.graceMs < countedLifetime lifetime →
            now + p.graceMs < issuedAt + countedLifetime lifetime) ∧
          (grace.toMillis < Numeral.unsigned64End - 1 →
            grace.toNanos < lifetime * Time.nanosPerSecond →
            Outlasts grace issuedAt lifetime now) := by
  intro p s trace
  have horigin : Origin p trace s.cached := origin_run p events
  refine ⟨horigin, fun now timestamp caller value hserved => ?_⟩
  obtain ⟨t, hcached, hvalue, hvalid⟩ := cached_of_returned hserved
  obtain ⟨issuedAt, lifetime, hissued⟩ := horigin.issued t hcached
  obtain ⟨hwithin, hearly⟩ := hissued.within hvalid
  refine ⟨t, issuedAt, lifetime, hcached, hvalue, hissued, hwithin, hearly, fun hgrace hlong => ?_⟩
  have hmillis : p.graceMs = grace.toMillis :=
    Nat.mod_eq_of_lt (hgrace.trans (Nat.sub_lt (by decide) Nat.one_pos))
  exact outlasts_of_lt hgrace hlong (hmillis ▸ hearly)

/-- A token for a minute that was registered at 1000, with a grace of five and a half seconds less
a nanosecond: it is served at 55500 for the last time, when more than the grace is left. -/
theorem served_in_time_sample :
    let grace := Time.Duration.ofParts 5 499999999
    let p := sampleProvider grace
    let s := (run p .initial (sampleEvents 1000 60)).1
    .returned 1 (.ok "first") ∈ (step p s (.locked 55500 55500)).2 ∧
      grace.toMillis < Numeral.unsigned64End - 1 ∧ grace.toNanos < 60 * Time.nanosPerSecond ∧
      ∃ issuedAt, LastIssued p issuedAt 60 ⟨"first", 55501⟩
        (run p .initial (sampleEvents 1000 60)).2 ∧ Outlasts grace issuedAt 60 55500 := by
  intro grace p s
  have hs : s = ⟨some ⟨"first", 55501⟩, 2, [1], none, []⟩ := by decide +kernel
  have hserved : .returned 1 (.ok "first") ∈ (step p s (.locked 55500 55500)).2 :=
    Fresh.returned_of_eq hs (by decide) 55500
  refine ⟨hserved, by decide, by decide, ?_⟩
  obtain ⟨-, hlaw⟩ := served_in_time _ _ _ grace (sampleEvents 1000 60)
  obtain ⟨t, issuedAt, lifetime, hcached, -, hissued, -, -, hearly⟩ := hlaw _ _ _ _ hserved
  have hsame : s.cached = some t := hcached
  rw [hs] at hsame
  obtain rfl := Option.some.inj hsame
  have hgranted : granted? (sampleAnswer 60) = some ("first", 60) := by decide +kernel
  obtain rfl := hissued.lifetime_eq hgranted
  exact ⟨issuedAt, hissued, hearly (by decide) (by decide)⟩

/-- **A long grace is not always kept.**  With the longest grace of 64 bits, a token that is
granted at the moment 0 for a lifetime that is longer than the grace is still served at
`2 ^ 64 - 2`, when less than the grace is left of its lifetime. -/
theorem not_served_within_grace :
    ¬∀ (base : String) (device : Device.Identity) (key : Device.Key) (grace : Time.Duration)
      (events : List Event),
      let p := ofGrace base device key grace
      let s := (run p .initial events).1
      ∀ now timestamp caller value,
        .returned caller (.ok value) ∈ (step p s (.locked now timestamp)).2 →
        ∃ t issuedAt lifetime, s.cached = some t ∧ t.value = value ∧
          LastIssued p issuedAt lifetime t (run p .initial events).2 ∧
          now < issuedAt + lifetime * 1000 ∧
          (grace.toNanos < lifetime * Time.nanosPerSecond →
            Outlasts grace issuedAt lifetime now) := by
  intro h
  let grace := Time.Duration.ofMillis 0xFFFFFFFFFFFFFFFF
  let lifetime := 18446744073709552
  let s := (run (sampleProvider grace) .initial (sampleEvents 0 lifetime)).1
  have hs : s = ⟨some ⟨"first", 0xFFFFFFFFFFFFFFFF⟩, 2, [1], none, []⟩ := by decide +kernel
  have hnow : 0xFFFFFFFFFFFFFFFE < 0xFFFFFFFFFFFFFFFF := by decide
  have hserved := Fresh.returned_of_eq (p := sampleProvider grace) hs hnow 0
  obtain ⟨t, issuedAt, lifetime', hcached, -, hissued, -, hlaw⟩ := h _ _ _ grace _ _ _ _ _ hserved
  have hsame : s.cached = some t := hcached
  rw [hs] at hsame
  obtain rfl := Option.some.inj hsame
  have hgranted : granted? (sampleAnswer lifetime) = some ("first", lifetime) := by decide +kernel
  obtain rfl : lifetime' = lifetime := hissued.lifetime_eq hgranted
  have husable : usableLifetime (sampleProvider grace).graceMs lifetime = 0xFFFFFFFFFFFFFFFF := by
    decide +kernel
  obtain rfl : issuedAt = 0 := by
    have hexpires : 0xFFFFFFFFFFFFFFFF
        = issuedAt + usableLifetime (sampleProvider grace).graceMs lifetime := hissued.expiresAt_eq
    omega
  exact absurd (hlaw (by decide)) (by simp only [Outlasts]; decide)

end Provider

end FleetAgent.Auth
