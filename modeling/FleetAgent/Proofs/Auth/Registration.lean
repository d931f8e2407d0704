/-
# What is sent is what is signed

The body of a registration is a JSON document that tells the attributes of the device, its key and
the time, whatever texts these are made of (`Tells`).  The bytes that are sent are the bytes that
have been signed, and the signature is read back from its header (`Signed`).  A registration for
which there is no public key or no signature sends nothing, and the token that one is granted
expires a lifetime after the time that was sent.

A provider sends requests of this kind only: both a registration of its own (`register`) and those
that fill the cache (`run`) make their requests in one place (`registration`).
-/
import FleetAgent.Proofs.Auth.Lifetime
import FleetAgent.Proofs.Json.Number
import FleetAgent.Proofs.Json.Reader
import FleetAgent.Proofs.Text.Base64
import FleetAgent.Proofs.Text.Encoding

namespace FleetAgent

/-! ## The time as a number -/

namespace Json.Number

/-- No zero stands in front of a number that is not zero. -/
lemma head?_toDigits_ne {n : Nat} (h : n ≠ 0) : (Nat.toDigits 10 n).head? ≠ some '0' := by
  induction n using Nat.strongRecOn with
  | ind n ih =>
    by_cases hsmall : n < 10
    · have hdigit : ∀ n < 10, n ≠ 0 → n.digitChar ≠ '0' := by decide
      rw [Nat.toDigits_of_lt_base hsmall]
      exact fun hhead => hdigit n hsmall h (Option.some.inj hhead)
    · rw [Nat.toDigits_of_base_le (by decide) (Nat.le_of_not_lt hsmall),
        List.head?_append_of_ne_nil _ Nat.toDigits_ne_nil]
      exact ih (n / 10) (by omega) (by omega)

lemma isWritten_ofNat (n : Nat) : (ofNat n).IsWritten where
  whole := ⟨(Numeral.isDigits_toDigits n).ne_nil, (Numeral.isDigits_toDigits n).digits⟩
  zero h := by
    by_cases hn : n = 0
    · rw [hn]
      rfl
    · exact absurd h (head?_toDigits_ne hn)
  fraction := nofun
  exponent := nofun

lemma le_ofDigitChars (ds : List Char) (m : Nat) : m ≤ Nat.ofDigitChars 10 ds m := by
  induction ds generalizing m with
  | nil => exact Nat.le_refl m
  | cons c ds ih =>
    rw [Nat.ofDigitChars_cons]
    have hrest := ih (10 * m + (c.toNat - '0'.toNat))
    omega

section

-- the end of the words of 64 bits is not counted down to
attribute [local irreducible] extend?

lemma leading_cons (c : Char) (cs : List Char) (m : Nat) :
    leading (c :: cs) m = match extend? m c with
      | some next => leading cs next
      | none => (m, (c :: cs).length) :=
  rfl

end

/-- All digits of a number of 64 bits are read into the significand. -/
lemma leading_eq {ds : List Char} {m : Nat}
    (h : Nat.ofDigitChars 10 ds m < Numeral.unsigned64End) :
    leading ds m = (Nat.ofDigitChars 10 ds m, 0) := by
  induction ds generalizing m with
  | nil => rfl
  | cons c ds ih =>
    rw [Nat.ofDigitChars_cons] at h ⊢
    have hnext : extend? m c = some (10 * m + (c.toNat - '0'.toNat)) :=
      if_pos ((le_ofDigitChars ds _).trans_lt h)
    rw [leading_cons, hnext]
    exact ih h

lemma inRange_of_leading {n : Number} (hfraction : n.fraction = none)
    (hexponent : n.exponent = none) (hleading : (leading n.whole 0).2 = 0) : n.inRange = true := by
  simp only [inRange, hfraction, hexponent, hleading]

/-- A number of 64 bits is read back. -/
lemma readable_ofNat {n : Nat} (h : n < Numeral.unsigned64End) : (ofNat n).Readable where
  ofChars? := ofChars?_eq_some_iff.mpr ⟨rfl, isWritten_ofNat n⟩
  inRange := by
    have hvalue := (Numeral.isDigits_toDigits n).value
    refine inRange_of_leading rfl rfl ?_
    rw [ofNat, leading_eq (by rwa [hvalue])]

lemma natural?_ofNat (n : Nat) : (ofNat n).natural? = some n :=
  Numeral.natural?_eq_some_iff.mpr (Numeral.isDigits_toDigits n)

end Json.Number

namespace Auth

variable {device : Device.Identity} {key : Device.Key} {publicKey : String} {timestamp : Nat}
  {base : String} {request : Http.Request}

/-! ## The body -/

/-- Bytes are a JSON document that tells the attributes of a device, its public key and a time, and
nothing else. -/
def Tells (device : Device.Identity) (publicKey : String) (timestamp : Nat)
    (body : List UInt8) : Prop :=
  ∃ text n, Text.Utf8.decode? body = some text ∧ n.natural? = some timestamp ∧
    Json.Value.ofString? text = some (.object
      [("metadata", .object
        [("rdfm.hardware.devtype", .string device.deviceType),
          ("rdfm.hardware.macaddr", .string device.mac),
          ("rdfm.software.version", .string device.softwareVersion)]),
        ("public_key", .string publicKey), ("timestamp", .number n)])

lemma readable_registrationBody (depth : Nat) (device : Device.Identity) (publicKey : String)
    (htime : timestamp < Numeral.unsigned64End) :
    (registrationBody device publicKey timestamp).Readable (depth + 2) := by
  have hmetadata : device.metadataJson.Readable (depth + 1) := by
    refine .object _ _ fun m hm => ?_
    obtain ⟨entry, -, rfl⟩ := List.mem_map.mp hm
    exact .string _ entry.2
  refine .object _ _ (List.forall_mem_cons.mpr ⟨hmetadata, ?_⟩)
  refine List.forall_mem_cons.mpr ⟨.string _ publicKey, ?_⟩
  exact List.forall_mem_singleton.mpr (.number _ _ (Json.Number.readable_ofNat htime))

/-- The bytes of the body of a registration. -/
def registrationBytes (device : Device.Identity) (publicKey : String) (timestamp : Nat) :
    List UInt8 :=
  Text.Utf8.encode (registrationBody device publicKey timestamp).render

lemma tells_registrationBytes (device : Device.Identity) (publicKey : String)
    (htime : timestamp < Numeral.unsigned64End) :
    Tells device publicKey timestamp (registrationBytes device publicKey timestamp) :=
  ⟨_, .ofNat timestamp, Text.Utf8.decode?_eq_some_iff.mpr rfl, Json.Number.natural?_ofNat timestamp,
    Json.Value.ofString?_render (readable_registrationBody 125 device publicKey htime)⟩

/-! ## The signature -/

/-- The header of a request carries a signature. -/
def Carries (request : Http.Request) (signature : List UInt8) : Prop :=
  (request.header? signatureHeader).bind Text.Base64.decode? = some signature

/-- A request is a registration: its body tells who registers and when, and it carries the signature
of exactly the body. -/
def IsRegistration (device : Device.Identity) (key : Device.Key) (timestamp : Nat)
    (request : Http.Request) : Prop :=
  ∃ publicKey signature, key.publicPem = .ok publicKey ∧
    Tells device publicKey timestamp request.body ∧
    key.sign request.body = .ok signature ∧ Carries request signature

/-- The request that registers with a body and its signature. -/
def signedRequest (base : String) (body signature : List UInt8) : Http.Request :=
  ⟨.post, registrationUrl base,
    [(signatureHeader, Text.Base64.encode signature), ("Content-Type", "application/json")], body⟩

lemma body_signedRequest (base : String) (body signature : List UInt8) :
    (signedRequest base body signature).body = body :=
  rfl

lemma carries_signedRequest (base : String) (body signature : List UInt8) :
    Carries (signedRequest base body signature) signature := by
  rw [Carries, Http.Request.header?, signedRequest, List.lookup_cons_self]
  exact Text.Base64.decode?_eq_some_iff.mpr rfl

lemma registration_of_error {e : Device.KeyError} (hkey : key.publicPem = .error e) :
    registration base device key timestamp = .error e := by
  rw [registration, hkey]
  rfl

variable (device timestamp base) in
/-- A registration needs the public key and the signature of its bytes. -/
lemma registration_of_ok (hkey : key.publicPem = .ok publicKey) :
    registration base device key timestamp =
      (key.sign (registrationBytes device publicKey timestamp)).map
        (signedRequest base (registrationBytes device publicKey timestamp)) := by
  rw [registration, hkey]
  exact (map_eq_pure_bind _ (key.sign _)).symm

/-- Every request that is made for a registration is one. -/
lemma isRegistration_of_eq_ok (htime : timestamp < Numeral.unsigned64End)
    (h : registration base device key timestamp = .ok request) :
    IsRegistration device key timestamp request := by
  cases hkey : key.publicPem with
  | error e =>
    rw [registration_of_error hkey] at h
    exact nomatch h
  | ok publicKey =>
    rw [registration_of_ok device timestamp base hkey] at h
    cases hsign : key.sign (registrationBytes device publicKey timestamp) with
    | error e =>
      rw [hsign] at h
      exact nomatch h
    | ok signature =>
      rw [hsign] at h
      obtain rfl : signedRequest base _ signature = request := Except.ok.inj h
      refine ⟨publicKey, signature, hkey, ?_, ?_, carries_signedRequest ..⟩
      · rw [body_signedRequest]
        exact tells_registrationBytes device publicKey htime
      · rw [body_signedRequest, hsign]

namespace Provider

variable {p : Provider} {s : State} {events : List Event} {caller : Nat} {r : Http.Reply}

/-! ## A registration of its own -/

lemma register_of_error {e : Device.KeyError}
    (h : registration p.base p.device p.key timestamp = .error e) :
    p.register timestamp r = (.refused (.key e), []) := by
  rw [register, h]

lemma register_of_ok (h : registration p.base p.device p.key timestamp = .ok request) :
    p.register timestamp r = (outcome p.graceMs timestamp r, (r.seen request).toList) := by
  rw [register, h]

/-! ## The registrations of a run -/

/-- The times of the clock have 64 bits. -/
def HasWordTimes (events : List Event) : Prop :=
  ∀ now timestamp, .locked now timestamp ∈ events → timestamp < Numeral.unsigned64End

/-- A registration begins when its caller gets the lock, at the time that the clock shows then. -/
lemma locked_of_began (h : .began caller timestamp ∈ (run p s events).2) :
    ∃ now, .locked now timestamp ∈ events := by
  obtain ⟨s', e, he, hbegan, -⟩ := exists_event_of_mem_run h
  cases e with
  | call => exact absurd hbegan List.not_mem_nil
  | reply other r =>
    have hmove := step_move p s' (.reply other r)
    generalize (step p s' (.reply other r)).1 = s'' at hmove
    generalize (step p s' (.reply other r)).2 = effects at hbegan hmove
    cases hmove with
    | idle => exact absurd hbegan List.not_mem_nil
    | closed _ _ _ _ _ hclosing => cases hclosing <;> simp at hbegan
  | locked now moment =>
    rw [step] at hbegan
    split at hbegan
    · rw [onLocked] at hbegan
      split at hbegan
      · simp at hbegan
      · split at hbegan <;> simp at hbegan <;> exact ⟨now, hbegan.2 ▸ he⟩
    · exact absurd hbegan List.not_mem_nil

/-- A request is sent by a caller that has begun a registration, for which it has been made. -/
lemma began_of_sent (h : .sent caller request ∈ (run p s events).2) :
    ∃ timestamp, .began caller timestamp ∈ (run p s events).2 ∧
      registration p.base p.device p.key timestamp = .ok request := by
  obtain ⟨s', e, -, hsent, hsub⟩ := exists_event_of_mem_run h
  have hmove := step_move p s' e
  generalize (step p s' e).1 = s'' at hmove
  generalize (step p s' e).2 = effects at hsent hsub hmove
  cases hmove with
  | idle | called => exact nomatch hsent
  | turned _ _ _ _ _ _ _ hsilent => cases hsilent <;> simp at hsent
  | closed _ _ _ _ _ hclosing => cases hclosing <;> simp at hsent
  | opened first now timestamp _ _ _ _ hopening =>
    obtain ⟨request', -, hrequest⟩ := hopening
    obtain ⟨rfl, rfl⟩ : caller = first ∧ request = request' := by simpa using hsent
    exact ⟨timestamp, hsub (by simp), hrequest⟩

/-- A token that is cached has been granted to a registration. -/
lemma LastIssued.exists_sent {issuedAt lifetime : Nat} {t : Token} {trace : List Effect}
    (h : LastIssued p issuedAt lifetime t trace) :
    ∃ caller request, .began caller issuedAt ∈ trace ∧ .sent caller request ∈ trace ∧
      registration p.base p.device p.key issuedAt = .ok request := by
  obtain ⟨before, turn, after, hturn, -⟩ := h
  obtain ⟨caller, now, request, answer, hrequest, -⟩ := hturn
  exact ⟨caller, request, by simp, by simp, hrequest⟩

/-- **What is sent is what is signed.**  A registration without a public key sends nothing.  With
one, there is a document that tells the attributes of the device, the key and the time.  If its
bytes cannot be signed, nothing is sent; if they can, these bytes are the body of the only request,
which carries the signature; and a token that is granted expires a lifetime after that time.

Whatever callers do, every request that a provider sends is such a registration, at the time at
which its caller has begun it; and the cached token expires a lifetime after such a time. -/
theorem requests_signed (p : Provider) :
    (∀ timestamp < Numeral.unsigned64End, ∀ r : Http.Reply,
      (∀ e, p.key.publicPem = .error e → p.register timestamp r = (.refused (.key e), [])) ∧
      ∀ publicKey, p.key.publicPem = .ok publicKey → ∃ body,
        Tells p.device publicKey timestamp body ∧
        (∀ e, p.key.sign body = .error e → p.register timestamp r = (.refused (.key e), [])) ∧
        ∀ signature, p.key.sign body = .ok signature → ∃ request, request.body = body ∧
          Carries request signature ∧ (p.register timestamp r).2 = (r.seen request).toList ∧
          ∀ t, (p.register timestamp r).1 = .granted t → ∃ answer lifetime,
            r = .response answer ∧ granted? answer = some (t.value, lifetime) ∧
              t.expiresAt = timestamp + usableLifetime p.graceMs lifetime) ∧
    ∀ events, HasWordTimes events →
      let trace := (run p .initial events).2
      (∀ caller request, .sent caller request ∈ trace → ∃ timestamp,
        .began caller timestamp ∈ trace ∧ IsRegistration p.device p.key timestamp request) ∧
      ∀ t, (run p .initial events).1.cached = some t → ∃ timestamp caller request lifetime,
        .began caller timestamp ∈ trace ∧ .sent caller request ∈ trace ∧
          IsRegistration p.device p.key timestamp request ∧
          t.expiresAt = timestamp + usableLifetime p.graceMs lifetime := by
  refine ⟨fun timestamp htime r => ⟨fun e hkey => ?_, fun publicKey hkey => ?_⟩,
    fun events hevents => ⟨fun caller request hsent => ?_, fun t ht => ?_⟩⟩
  · exact register_of_error (registration_of_error hkey)
  · have hregistration := registration_of_ok p.device timestamp p.base hkey
    refine ⟨_, tells_registrationBytes p.device publicKey htime, fun e hsign => ?_,
      fun signature hsign => ?_⟩
    · rw [hsign] at hregistration
      exact register_of_error hregistration
    · rw [hsign] at hregistration
      have hregister := register_of_ok (r := r) hregistration
      refine ⟨signedRequest p.base _ signature, body_signedRequest .., carries_signedRequest .., ?_,
        fun t ht => ?_⟩
      · rw [hregister]
      · rw [hregister] at ht
        obtain ⟨answer, lifetime, hr, -, hgranted, hexpires⟩ := outcome_eq_granted ht
        exact ⟨answer, lifetime, hr, hgranted, hexpires⟩
  · obtain ⟨timestamp, hbegan, hrequest⟩ := began_of_sent hsent
    obtain ⟨now, hlocked⟩ := locked_of_began hbegan
    exact ⟨timestamp, hbegan, isRegistration_of_eq_ok (hevents now timestamp hlocked) hrequest⟩
  · obtain ⟨timestamp, lifetime, hissued⟩ := (origin_run p events).issued t ht
    obtain ⟨caller, request, hbegan, hsent, hrequest⟩ := hissued.exists_sent
    obtain ⟨now, hlocked⟩ := locked_of_began hbegan
    exact ⟨timestamp, caller, request, lifetime, hbegan, hsent,
      isRegistration_of_eq_ok (hevents now timestamp hlocked) hrequest, hissued.expiresAt_eq⟩

/-- A device whose key signs everything alike sends one request when it registers. -/
theorem requests_signed_sample :
    let p := sampleProvider .zero
    1000 < Numeral.unsigned64End ∧ HasWordTimes [.call, .locked 1000 1000] ∧
      p.key.publicPem = .ok "key" ∧
      (∃ body request, Tells p.device "key" 1000 body ∧ p.key.sign body = .ok [1, 2, 3] ∧
        request.body = body ∧ Carries request [1, 2, 3] ∧
        (p.register 1000 .hangUp).2 = [request]) ∧
      ∃ timestamp request, .sent 0 request ∈ (run p .initial [.call, .locked 1000 1000]).2 ∧
        IsRegistration p.device p.key timestamp request := by
  intro p
  have htimes : HasWordTimes [.call, .locked 1000 1000] := by
    intro now timestamp h
    obtain ⟨-, rfl⟩ : now = 1000 ∧ timestamp = 1000 := by simpa using h
    decide
  obtain ⟨hregister, hrun⟩ := requests_signed p
  refine ⟨by decide, htimes, rfl, ?_, ?_⟩
  · obtain ⟨body, htells, -, hsigned⟩ := (hregister 1000 (by decide) .hangUp).2 "key" rfl
    obtain ⟨request, hbody, hcarries, hsent, -⟩ := hsigned [1, 2, 3] rfl
    exact ⟨body, request, htells, rfl, hbody, hcarries, hsent⟩
  · have hrequest := registration_of_ok p.device 1000 p.base (rfl : p.key.publicPem = .ok "key")
    have hsign : p.key.sign (registrationBytes p.device "key" 1000) = .ok [1, 2, 3] := rfl
    rw [hsign, Except.map] at hrequest
    have hsent : .sent 0 (signedRequest p.base (registrationBytes p.device "key" 1000) [1, 2, 3])
        ∈ (run p .initial [.call, .locked 1000 1000]).2 := by
      simp [run, step, onLocked, State.initial, State.valid?, hrequest]
    obtain ⟨timestamp, -, hregistration⟩ := (hrun _ htimes).1 0 _ hsent
    exact ⟨timestamp, _, hsent, hregistration⟩

end Provider

end Auth

end FleetAgent
