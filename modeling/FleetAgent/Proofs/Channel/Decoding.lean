/-
# What a text denotes

The outcome of decoding is a matter of the JSON value alone, and of no more of it than the members
that the messages know (`Decodes`): the method, a text, decides, and then whether the members of
that method have the form that it asks for (`Fills`).  The decoder finds this outcome for every
document of a value within the limits of the reader (`decode_spec`).  Values that say the same have
the same outcome, and members that the method does not know change nothing.
-/
import FleetAgent.Proofs.Channel.Message
import FleetAgent.Proofs.Json.Document
import FleetAgent.Proofs.Json.Member
import Mathlib.Data.Bool.AllAny

namespace FleetAgent.Channel

open Json (Value IsDocument maxDepth)

/-! ## Capability sets -/

namespace Capabilities

variable {es : List (String × Bool)} {name k : String} {on b : Bool} {c d : Capabilities}

/-- Setting a value replaces that of its own name. -/
lemma mem_insertEntry_iff (h : (es.map Prod.fst).Pairwise (· < ·)) :
    (k, b) ∈ insertEntry name on es ↔ k = name ∧ b = on ∨ k ≠ name ∧ (k, b) ∈ es := by
  induction es with
  | nil => simp [insertEntry]
  | cons e es ih =>
    obtain ⟨j, v⟩ := e
    obtain ⟨hfirst, hrest⟩ := List.pairwise_cons.mp h
    -- the names behind are greater than the first one
    have hlater (hmem : (k, b) ∈ es) : j < k := hfirst k (List.mem_map_of_mem hmem)
    rw [insertEntry]
    split
    · next hlt =>
      have hne (hmem : (k, b) ∈ (j, v) :: es) : k ≠ name := by
        rintro rfl
        rcases List.mem_cons.mp hmem with heq | hmem
        · obtain rfl := (Prod.mk.inj heq).1
          exact String.lt_irrefl k hlt
        · exact String.lt_asymm hlt (hlater hmem)
      rw [List.mem_cons, Prod.mk.injEq]
      exact or_congr_right ⟨fun hmem => ⟨hne hmem, hmem⟩, And.right⟩
    · split
      · next heq =>
        subst heq
        have hne (hmem : (k, b) ∈ es) : k ≠ name := by
          rintro rfl
          exact String.lt_irrefl k (hlater hmem)
        rw [List.mem_cons, Prod.mk.injEq]
        refine or_congr_right ⟨fun hmem => ⟨hne hmem, List.mem_cons_of_mem _ hmem⟩, ?_⟩
        rintro ⟨hk, hmem⟩
        rcases List.mem_cons.mp hmem with heq | hmem
        · exact absurd (Prod.mk.inj heq).1 hk
        · exact hmem
      · next hname =>
        rw [List.mem_cons, ih hrest, List.mem_cons, Prod.mk.injEq]
        constructor
        · rintro (⟨rfl, rfl⟩ | hset | ⟨hk, hmem⟩)
          · exact .inr ⟨Ne.symm hname, .inl ⟨rfl, rfl⟩⟩
          · exact .inl hset
          · exact .inr ⟨hk, .inr hmem⟩
        · rintro (hset | ⟨hk, hfirst | hmem⟩)
          · exact .inr (.inl hset)
          · exact .inl hfirst
          · exact .inr (.inr ⟨hk, hmem⟩)

/-- A set of entries with different names has these entries. -/
lemma mem_entries_foldl_insert (h : (es.map Prod.fst).Nodup) :
    (k, b) ∈ (es.foldl (fun c e => c.insert e.1 e.2) c).entries ↔
      (k, b) ∈ es ∨ k ∉ es.map Prod.fst ∧ (k, b) ∈ c.entries := by
  induction es generalizing c with
  | nil => simp
  | cons e es ih =>
    obtain ⟨hnot, hrest⟩ := List.nodup_cons.mp h
    have hinsert : (k, b) ∈ (c.insert e.1 e.2).entries ↔
        k = e.1 ∧ b = e.2 ∨ k ≠ e.1 ∧ (k, b) ∈ c.entries := mem_insertEntry_iff c.sorted
    have hnot' : k = e.1 → k ∉ es.map Prod.fst := by
      rintro rfl
      exact hnot
    have hfirst : (k, b) = e ↔ k = e.1 ∧ b = e.2 := Prod.ext_iff
    rw [List.foldl_cons, ih hrest, hinsert, List.mem_cons, hfirst, List.map_cons, List.mem_cons]
    tauto

lemma mem_entries_ofList (h : (es.map Prod.fst).Nodup) :
    (k, b) ∈ (ofList es).entries ↔ (k, b) ∈ es := by
  rw [ofList, mem_entries_foldl_insert h]
  exact or_iff_left fun hmem => List.not_mem_nil hmem.2

/-- Two sets with the same entries are equal. -/
lemma eq_of_mem_entries (h : ∀ e, e ∈ c.entries ↔ e ∈ d.entries) : c = d := by
  have hordered (c : Capabilities) : c.entries.Pairwise fun e e' => e.1 < e'.1 :=
    List.pairwise_map.mp c.sorted
  have hnodup (c : Capabilities) : c.entries.Nodup := by
    refine (hordered c).imp ?_
    rintro e _ hlt rfl
    exact String.lt_irrefl e.1 hlt
  have hperm := (List.perm_ext_iff_of_nodup (hnodup c) (hnodup d)).mpr h
  have hentries : c.entries = d.entries :=
    hperm.eq_of_pairwise (fun e e' _ _ hlt hgt => absurd hgt (String.lt_asymm hlt)) (hordered c)
      (hordered d)
  cases c
  cases d
  cases hentries
  rfl

end Capabilities

namespace Message

/-! ## Members that count -/

section

variable {members : List (String × Value)} {name : String} {w : Value} {es : List (String × Bool)}

lemma effective_cons (m : String × Value) (members : List (String × Value)) :
    effective (m :: members) =
      if (effective members).any (·.1 == m.1) then effective members
      else m :: effective members :=
  rfl

/-- The members that count are left. -/
lemma mem_effective_iff :
    (name, w) ∈ effective members ↔ (Value.object members).Member name w := by
  induction members generalizing name w with
  | nil =>
    refine iff_of_false List.not_mem_nil fun h => ?_
    exact List.not_mem_nil h.mem
  | cons m members ih =>
    rw [effective_cons, Value.member_cons]
    split
    · next hlater =>
      obtain ⟨m', hm', heq⟩ := List.any_eq_true.mp hlater
      have hname : m'.1 = m.1 := beq_iff_eq.mp heq
      rw [ih]
      refine (or_iff_left ?_).symm
      rintro ⟨hnone, rfl⟩
      exact hnone m' (ih.mp hm').mem hname
    · next hlast =>
      rw [List.mem_cons, ih, or_comm, eq_comm (b := m)]
      refine or_congr_right ⟨fun heq => ⟨fun m' hm' hname => hlast ?_, heq⟩, And.right⟩
      obtain ⟨w', hw'⟩ := Value.exists_member hm'
      refine List.any_eq_true.mpr ⟨_, ih.mpr hw', beq_iff_eq.mpr ?_⟩
      rw [hname, heq]

lemma nodup_effective (members : List (String × Value)) :
    ((effective members).map Prod.fst).Nodup := by
  induction members with
  | nil => exact .nil
  | cons m members ih =>
    rw [effective_cons]
    split
    · exact ih
    · next hnone =>
      refine List.nodup_cons.mpr ⟨fun hmem => hnone ?_, ih⟩
      obtain ⟨m', hm', heq⟩ := List.mem_map.mp hmem
      exact List.any_eq_true.mpr ⟨m', hm', beq_iff_eq.mpr heq⟩

lemma capabilityEntries?_eq_some_iff :
    capabilityEntries? members = some es ↔ members = es.map fun e => (e.1, .bool e.2) := by
  constructor
  · intro h
    induction members generalizing es with
    | nil =>
      obtain rfl : [] = es := Option.some.inj h
      rfl
    | cons m members ih =>
      rw [capabilityEntries?, List.mapM_cons] at h
      obtain ⟨e, he, h⟩ := Option.bind_eq_some_iff.mp h
      obtain ⟨rest, hrest, h⟩ := Option.bind_eq_some_iff.mp h
      obtain rfl := Option.some.inj h
      obtain ⟨b, hb, rfl⟩ := Option.map_eq_some_iff.mp he
      obtain ⟨name, v⟩ := m
      have hv : v = .bool b := by
        cases v with
        | bool b' => exact congrArg Value.bool (Option.some.inj hb)
        | _ => cases hb
      rw [List.map_cons, ← ih hrest, hv]
  · rintro rfl
    exact capabilityEntries?_map es

end

/-! ## Messages -/

/-- The text that the value of an alert holds. -/
inductive IsAlert : Value → String → Prop where
  | object (alert : Value) (text : String) (h : alert.Member "message" (.string text)) :
      IsAlert alert text
  | array (text : String) : IsAlert (.array [.string text]) text

/-- The members that a method asks for make a message. -/
inductive Fills (v : Value) : Method → Message → Prop where
  /-- All members of the capabilities that count are truth values, and they are the entries. -/
  | capabilityReport (members : List (String × Value)) (c : Capabilities)
      (h : v.Member "capabilities" (.object members))
      (hbool : ∀ name w, (Value.object members).Member name w → ∃ on, w = .bool on)
      (hentries : ∀ name on, (name, on) ∈ c.entries ↔
        (Value.object members).Member name (.bool on)) :
      Fills v .capabilityReport (.capabilityReport c)
  | alert (alert : Value) (text : String) (h : v.Member "alert" alert)
      (htext : IsAlert alert text) : Fills v .alert (.alert text)
  | shellAttach (r : Shell.Request) (hmac : v.Member "mac_addr" (.string r.mac))
      (huuid : v.Member "uuid" (.string r.session)) : Fills v .shellAttach (.shellAttach r)

/-- The outcome of decoding a value. -/
inductive Decodes (v : Value) : Except MessageError (Option Message) → Prop where
  | noMethod (h : ∀ name, ¬v.Member "method" (.string name)) : Decodes v (.error .noMethod)
  | unknown (name : String) (h : v.Member "method" (.string name))
      (hname : ∀ method : Method, method.name ≠ name) : Decodes v (.ok none)
  | message (method : Method) (m : Message) (h : v.Member "method" (.string method.name))
      (hm : Fills v method m) : Decodes v (.ok (some m))
  | malformed (method : Method) (h : v.Member "method" (.string method.name))
      (hm : ∀ m, ¬Fills v method m) : Decodes v (.error (.malformed method))

section

variable {v v' : Value} {method : Method} {m : Message} {text name : String}
  {r r' : Except MessageError (Option Message)}

lemma text?_eq_some_iff {w : Value} : w.text? = some text ↔ w = .string text := by
  cases w with
  | string s => exact ⟨fun h => congrArg Value.string (Option.some.inj h), fun h => by cases h; rfl⟩
  | _ => exact iff_of_false nofun nofun

lemma alertText?_eq_some_iff {alert : Value} :
    alertText? alert = some text ↔ IsAlert alert text := by
  constructor
  · intro h
    rw [alertText?.eq_def] at h
    split at h
    · obtain ⟨w, hw, htext⟩ := Option.bind_eq_some_iff.mp h
      obtain rfl := text?_eq_some_iff.mp htext
      exact .object _ text (Value.lookup?_eq_some_iff.mp hw)
    · obtain rfl := Option.some.inj h
      exact .array _
    · cases h
  · intro h
    cases h with
    | object _ _ h =>
      obtain ⟨front, back, rfl, -⟩ := id h
      rw [alertText?, Value.lookup?_eq_some_iff.mpr h]
      rfl
    | array => rfl

/-- Members that are all truth values are those of some entries. -/
lemma exists_entries {members : List (String × Value)} (h : ∀ m ∈ members, ∃ on, m.2 = .bool on) :
    ∃ es : List (String × Bool), members = es.map fun e => (e.1, .bool e.2) := by
  induction members with
  | nil => exact ⟨[], rfl⟩
  | cons m members ih =>
    obtain ⟨⟨on, hon⟩, hmembers⟩ := List.forall_mem_cons.mp h
    obtain ⟨es, rfl⟩ := ih hmembers
    refine ⟨(m.1, on) :: es, ?_⟩
    rw [List.map_cons, ← hon]

/-- The entries made of the members that count are these. -/
lemma mem_entries_of_effective {members : List (String × Value)} {es : List (String × Bool)}
    (hes : effective members = es.map fun e => (e.1, .bool e.2)) (name : String) (on : Bool) :
    (name, on) ∈ (Capabilities.ofList es).entries ↔
      (Value.object members).Member name (.bool on) := by
  have hnodup : (es.map Prod.fst).Nodup := by
    have heffective := nodup_effective members
    rw [hes, List.map_map] at heffective
    exact heffective
  rw [Capabilities.mem_entries_ofList hnodup, ← mem_effective_iff, hes]
  simp

lemma fills_capabilityReport_iff : ofMembers? .capabilityReport v = some m ↔
    Fills v .capabilityReport m := by
  constructor
  · intro h
    obtain ⟨w, hw, h⟩ := Option.bind_eq_some_iff.mp h
    obtain ⟨members, hmembers, h⟩ := Option.bind_eq_some_iff.mp h
    obtain ⟨es, hes, h⟩ := Option.bind_eq_some_iff.mp h
    obtain rfl := Option.some.inj h
    obtain rfl : w = .object members := by
      cases w with
      | object ms => exact congrArg Value.object (Option.some.inj hmembers)
      | _ => cases hmembers
    have heffective := capabilityEntries?_eq_some_iff.mp hes
    refine .capabilityReport members _ (Value.field?_eq_some_iff.mp hw) ?_
      (mem_entries_of_effective heffective)
    intro name w hw
    have hmem := mem_effective_iff.mpr hw
    rw [heffective] at hmem
    obtain ⟨e, -, he⟩ := List.mem_map.mp hmem
    exact ⟨e.2, (Prod.mk.inj he).2.symm⟩
  · intro h
    cases h with
    | capabilityReport members c h hbool hentries =>
      have heffective : ∀ m ∈ effective members, ∃ on, m.2 = .bool on := fun m hm =>
        hbool m.1 m.2 (mem_effective_iff.mp hm)
      obtain ⟨es, hes⟩ := exists_entries heffective
      have hc : Capabilities.ofList es = c := Capabilities.eq_of_mem_entries fun e =>
        (mem_entries_of_effective hes e.1 e.2).trans (hentries e.1 e.2).symm
      refine Option.bind_eq_some_iff.mpr ⟨_, Value.field?_eq_some_iff.mpr h, ?_⟩
      refine Option.bind_eq_some_iff.mpr ⟨members, rfl, ?_⟩
      refine Option.bind_eq_some_iff.mpr ⟨es, capabilityEntries?_eq_some_iff.mpr hes, ?_⟩
      rw [hc]
      rfl

lemma fills_alert_iff : ofMembers? .alert v = some m ↔ Fills v .alert m := by
  constructor
  · intro h
    obtain ⟨alert, halert, h⟩ := Option.bind_eq_some_iff.mp h
    obtain ⟨text, htext, h⟩ := Option.bind_eq_some_iff.mp h
    obtain rfl := Option.some.inj h
    exact .alert alert text (Value.field?_eq_some_iff.mp halert) (alertText?_eq_some_iff.mp htext)
  · intro h
    cases h with
    | alert alert text h htext =>
      refine Option.bind_eq_some_iff.mpr ⟨alert, Value.field?_eq_some_iff.mpr h, ?_⟩
      exact Option.bind_eq_some_iff.mpr ⟨text, alertText?_eq_some_iff.mpr htext, rfl⟩

lemma fills_shellAttach_iff : ofMembers? .shellAttach v = some m ↔ Fills v .shellAttach m := by
  constructor
  · intro h
    obtain ⟨w, hw, h⟩ := Option.bind_eq_some_iff.mp h
    obtain ⟨mac, hmac, h⟩ := Option.bind_eq_some_iff.mp h
    obtain ⟨x, hx, h⟩ := Option.bind_eq_some_iff.mp h
    obtain ⟨session, hsession, h⟩ := Option.bind_eq_some_iff.mp h
    obtain rfl := Option.some.inj h
    obtain rfl := text?_eq_some_iff.mp hmac
    obtain rfl := text?_eq_some_iff.mp hsession
    exact .shellAttach ⟨mac, session⟩ (Value.field?_eq_some_iff.mp hw)
      (Value.field?_eq_some_iff.mp hx)
  · intro h
    cases h with
    | shellAttach r hmac huuid =>
      refine Option.bind_eq_some_iff.mpr ⟨_, Value.field?_eq_some_iff.mpr hmac, ?_⟩
      refine Option.bind_eq_some_iff.mpr ⟨r.mac, rfl, ?_⟩
      refine Option.bind_eq_some_iff.mpr ⟨_, Value.field?_eq_some_iff.mpr huuid, ?_⟩
      exact Option.bind_eq_some_iff.mpr ⟨r.session, rfl, rfl⟩

/-- **Members.**  A message is made of the members of a value exactly if they fill it. -/
lemma ofMembers?_eq_some_iff : ofMembers? method v = some m ↔ Fills v method m := by
  cases method with
  | capabilityReport => exact fills_capabilityReport_iff
  | alert => exact fills_alert_iff
  | shellAttach => exact fills_shellAttach_iff

lemma ofName?_eq_some_iff : Method.ofName? name = some method ↔ method.name = name := by
  constructor
  · intro h
    simpa using List.find?_some h
  · rintro rfl
    cases method <;> decide

lemma method?_eq_some_iff :
    (v.field? "method").bind Value.text? = some name ↔ v.Member "method" (.string name) := by
  rw [Option.bind_eq_some_iff]
  constructor
  · rintro ⟨w, hw, hname⟩
    obtain rfl := text?_eq_some_iff.mp hname
    exact Value.field?_eq_some_iff.mp hw
  · intro h
    exact ⟨_, Value.field?_eq_some_iff.mpr h, rfl⟩

/-- **Outcomes.**  Every value has the outcome that its members say, and no other. -/
lemma ofJson_eq_iff : ofJson v = r ↔ Decodes v r := by
  constructor
  · rintro rfl
    rw [ofJson]
    split
    · next hnone =>
      refine .noMethod fun name h => ?_
      rw [method?_eq_some_iff.mpr h] at hnone
      cases hnone
    · next name hname =>
      have hmember := method?_eq_some_iff.mp hname
      split
      · next hunknown =>
        refine .unknown name hmember fun method hmethod => ?_
        rw [ofName?_eq_some_iff.mpr hmethod] at hunknown
        cases hunknown
      · next method hmethod =>
        obtain rfl := ofName?_eq_some_iff.mp hmethod
        split
        · next m hm => exact .message method m hmember (ofMembers?_eq_some_iff.mp hm)
        · next hnone =>
          refine .malformed method hmember fun m hm => ?_
          rw [ofMembers?_eq_some_iff.mpr hm] at hnone
          cases hnone
  · intro h
    cases h with
    | noMethod h =>
      have hnone : (v.field? "method").bind Value.text? = none :=
        Option.eq_none_iff_forall_ne_some.mpr fun name hname => h name (method?_eq_some_iff.mp hname)
      simp only [ofJson, hnone]
    | unknown name h hname =>
      have hnone : Method.ofName? name = none :=
        Option.eq_none_iff_forall_ne_some.mpr fun method hmethod =>
          hname method (ofName?_eq_some_iff.mp hmethod)
      simp only [ofJson, method?_eq_some_iff.mpr h, hnone]
    | message method m h hm =>
      exact ofJson_of_ofMembers? (method?_eq_some_iff.mpr h) (ofName?_eq_some_iff.mpr rfl)
        (ofMembers?_eq_some_iff.mpr hm)
    | malformed method h hm =>
      have hnone : ofMembers? method v = none :=
        Option.eq_none_iff_forall_ne_some.mpr fun m hmember =>
          hm m (ofMembers?_eq_some_iff.mp hmember)
      simp only [ofJson, method?_eq_some_iff.mpr h, ofName?_eq_some_iff.mpr rfl, hnone]

/-! ## Values with the same outcome -/

/-- Values with the same method, and the same messages of it, have the same outcome. -/
lemma Decodes.congr (h : Decodes v r)
    (hmethod : ∀ name, v.Member "method" (.string name) ↔ v'.Member "method" (.string name))
    (hfills : ∀ method m, v.Member "method" (.string method.name) →
      (Fills v method m ↔ Fills v' method m)) : Decodes v' r := by
  cases h with
  | noMethod h => exact .noMethod fun name hname => h name ((hmethod name).mpr hname)
  | unknown name h hname => exact .unknown name ((hmethod name).mp h) hname
  | message method m h hm =>
    exact .message method m ((hmethod _).mp h) ((hfills method m h).mp hm)
  | malformed method h hm =>
    exact .malformed method ((hmethod _).mp h) fun m hm' => hm m ((hfills method m h).mpr hm')

lemma IsAlert.alike {alert alert' : Value} (h : IsAlert alert text) (halike : alert.Alike alert') :
    IsAlert alert' text := by
  cases h with
  | object _ _ h => exact .object _ _ (halike.member_string h)
  | array =>
    cases halike with
    | array _ items' hlength h =>
      obtain ⟨item, rfl⟩ := List.length_eq_one_iff.mp hlength.symm
      have hitem := h 0 Nat.zero_lt_one Nat.zero_lt_one
      cases item with
      | string s =>
        cases hitem
        exact .array _
      | _ => cases hitem

lemma Fills.alike (h : Fills v method m) (halike : v.Alike v') : Fills v' method m := by
  cases h with
  | capabilityReport members c h hbool hentries =>
    obtain ⟨w', hw', hmembers⟩ := halike.member h
    obtain ⟨members', rfl⟩ : ∃ members', w' = .object members' := by
      cases hmembers
      exact ⟨_, rfl⟩
    refine .capabilityReport members' c hw' ?_ ?_
    · intro name w' hw'
      obtain ⟨w, hw, hsame⟩ := hmembers.symm.member hw'
      obtain ⟨on, rfl⟩ := hbool name w hw
      cases hsame
      exact ⟨on, rfl⟩
    · intro name on
      rw [hentries]
      exact ⟨hmembers.member_bool, hmembers.symm.member_bool⟩
  | alert alert text h htext =>
    obtain ⟨alert', halert', hsame⟩ := halike.member h
    exact .alert alert' text halert' (htext.alike hsame)
  | shellAttach r hmac huuid =>
    exact .shellAttach r (halike.member_string hmac) (halike.member_string huuid)

lemma Decodes.alike (h : Decodes v r) (halike : v.Alike v') : Decodes v' r :=
  h.congr (fun _ => ⟨halike.member_string, halike.symm.member_string⟩)
    fun _ _ _ => ⟨fun h => h.alike halike, fun h => h.alike halike.symm⟩

end

end Message

/-- The members that a method asks for. -/
def Method.fields : Method → List String
  | .capabilityReport => ["capabilities"]
  | .alert => ["alert"]
  | .shellAttach => ["mac_addr", "uuid"]

namespace Message

section

variable {v v' x y w : Value} {method : Method} {m : Message} {text name : String}
  {r : Except MessageError (Option Message)} {front back inner inner' : List (String × Value)}

/-- Only the members that the method asks for fill a message. -/
lemma Fills.congr (h : Fills v method m)
    (hfields : ∀ name ∈ method.fields, ∀ w, v.Member name w → v'.Member name w) :
    Fills v' method m := by
  cases h with
  | capabilityReport members c h hbool hentries =>
    exact .capabilityReport members c (hfields _ (by decide) _ h) hbool hentries
  | alert alert text h htext => exact .alert alert text (hfields _ (by decide) _ h) htext
  | shellAttach r hmac huuid =>
    exact .shellAttach r (hfields _ (by decide) _ hmac) (hfields _ (by decide) _ huuid)

/-- A member that the method does not know changes nothing. -/
lemma Decodes.insert (h : Decodes (.object (front ++ back)) r) (hname : name ≠ "method")
    (hfields : ∀ method : Method, (Value.object (front ++ back)).Member "method"
      (.string method.name) → name ∉ method.fields) :
    Decodes (.object (front ++ (name, w) :: back)) r := by
  refine h.congr (fun _ => (Value.member_insert hname.symm).symm) fun method m hmethod => ?_
  have hother {field : String} (hfield : field ∈ method.fields) : field ≠ name := by
    rintro rfl
    exact hfields method hmethod hfield
  constructor
  · intro hfills
    exact hfills.congr fun field hfield w hw => (Value.member_insert (hother hfield)).mpr hw
  · intro hfills
    exact hfills.congr fun field hfield w hw => (Value.member_insert (hother hfield)).mp hw

lemma isAlert_insert (hname : name ≠ "message") :
    IsAlert (.object (inner ++ (name, w) :: inner')) text ↔ IsAlert (.object (inner ++ inner')) text := by
  constructor
  · intro h
    cases h with
    | object _ _ h => exact .object _ _ ((Value.member_insert hname.symm).mp h)
  · intro h
    cases h with
    | object _ _ h => exact .object _ _ ((Value.member_insert hname.symm).mpr h)

/-- A message is filled as well by an alert with the same text. -/
lemma Fills.replace (h : Fills (.object (front ++ ("alert", x) :: back)) method m)
    (halert : ∀ text, IsAlert x text → IsAlert y text) :
    Fills (.object (front ++ ("alert", y) :: back)) method m := by
  have hother {field : String} {w : Value} (hfield : field ≠ "alert")
      (hw : (Value.object (front ++ ("alert", x) :: back)).Member field w) :
      (Value.object (front ++ ("alert", y) :: back)).Member field w :=
    (Value.member_insert hfield).mpr ((Value.member_insert hfield).mp hw)
  cases method with
  | alert =>
    cases h with
    | alert alert text h htext =>
      rcases Value.member_insert_self.mp h with hback | ⟨hlast, rfl⟩
      · exact .alert alert text (Value.member_insert_self.mpr (.inl hback)) htext
      · exact .alert y text (Value.member_insert_self.mpr (.inr ⟨hlast, rfl⟩))
          (halert text htext)
  | capabilityReport | shellAttach =>
    refine h.congr fun field hfield w hw => hother ?_ hw
    rintro rfl
    exact absurd hfield (by decide)

/-- A member of an alert besides its text changes nothing. -/
lemma Decodes.insert_alert
    (h : Decodes (.object (front ++ ("alert", .object (inner ++ inner')) :: back)) r)
    (hname : name ≠ "message") :
    Decodes (.object (front ++ ("alert", .object (inner ++ (name, w) :: inner')) :: back)) r := by
  have hmethod : ("method" : String) ≠ "alert" := by decide
  refine h.congr (fun _ => ?_) fun method m _ => ⟨?_, ?_⟩
  · rw [Value.member_insert hmethod, Value.member_insert hmethod]
  · intro hfills
    exact hfills.replace fun text => (isAlert_insert hname).mpr
  · intro hfills
    exact hfills.replace fun text => (isAlert_insert hname).mp

/-! ## Texts -/

lemma decode_eq_ofJson (h : Json.IsAdmitted text v) : decode text = ofJson v := by
  rw [decode, Value.ofString?_eq_some_iff.mpr h]

lemma decode_eq_iff (h : Json.IsAdmitted text v) : decode text = r ↔ Decodes v r := by
  rw [decode_eq_ofJson h, ofJson_eq_iff]

/-- A text is no JSON to the decoder exactly if no value admits it. -/
lemma decode_eq_invalidJson_iff :
    decode text = .error .invalidJson ↔ ¬∃ v, Json.IsAdmitted text v := by
  constructor
  · rintro h ⟨v, hv⟩
    cases (decode_eq_iff hv).mp h
  · intro h
    have hnone : Value.ofString? text = none := Option.eq_none_iff_forall_ne_some.mpr
      fun v hv => h ⟨v, Value.ofString?_eq_some_iff.mp hv⟩
    rw [decode, hnone]

end

/-- **Decoding.**  A text is no JSON to the decoder exactly if it is not the document of a value
within the limits of the reader: containers nested at most `maxDepth` deep, and numbers in range.
For every document of a value within these limits, with whatever spaces, escapes and order of
members, the outcome is the one that the members say: no method, if there is no text under that
name; nothing, if the method is not known; the message that the members of the method make, if they
have the form that it asks for; and that the method is malformed in all other cases.  The last of
several members with one name counts.  Values that say the same have the same outcome.  A member
that the method does not know changes nothing, nor does a member of an alert besides its text. -/
theorem decode_spec :
    (∀ text, decode text = .error .invalidJson ↔ ¬∃ v, Json.IsAdmitted text v) ∧
    (∀ text v, Json.IsAdmitted text v → ∀ r, decode text = r ↔ Decodes v r) ∧
    (∀ text text' v v', Json.IsAdmitted text v → Json.IsAdmitted text' v' → v.Alike v' →
      decode text' = decode text) ∧
    (∀ text text' front back name w, Json.IsAdmitted text (.object (front ++ back)) →
      Json.IsAdmitted text' (.object (front ++ (name, w) :: back)) → name ≠ "method" →
      (∀ method : Method, (Value.object (front ++ back)).Member "method" (.string method.name) →
        name ∉ method.fields) → decode text' = decode text) ∧
    ∀ text text' front back inner inner' name w,
      Json.IsAdmitted text (.object (front ++ ("alert", .object (inner ++ inner')) :: back)) →
      Json.IsAdmitted text'
        (.object (front ++ ("alert", .object (inner ++ (name, w) :: inner')) :: back)) →
      name ≠ "message" → decode text' = decode text := by
  refine ⟨fun text => decode_eq_invalidJson_iff, fun text v h r => decode_eq_iff h, ?_, ?_, ?_⟩
  · intro text text' v v' h h' halike
    have hdecodes : Decodes v (decode text) := (decode_eq_iff h).mp rfl
    exact (decode_eq_iff h').mpr (hdecodes.alike halike)
  · intro text text' front back name w h h' hname hfields
    have hdecodes : Decodes _ (decode text) := (decode_eq_iff h).mp rfl
    exact (decode_eq_iff h').mpr (hdecodes.insert hname hfields)
  · intro text text' front back inner inner' name w h h' hname
    have hdecodes : Decodes _ (decode text) := (decode_eq_iff h).mp rfl
    exact (decode_eq_iff h').mpr (hdecodes.insert_alert hname)

/-- An alert with a repeated member, and with further members in front. -/
def spacedAlert (others : List (String × Value)) : Value :=
  .object (others ++ [("method", .string ""), ("method", .string "alert"),
    ("alert", .array [.string "😀"])])

/-- A document of the alert, with spaces and escapes. -/
def spacedText : String :=
  " \x7b \"method\":\"\",\"method\" :\"al\\u0065rt\",\"alert\": [\"\\ud83d\\ude00\"]\x7d"

/-- A document of the alert with a member that no method knows. -/
def longerText : String :=
  "\x7b\"x\": [null, \x7b\x7d],\"method\":\"\",\"method\":\"alert\",\"alert\":[\"😀\"]\x7d\n"

/-- Spaces, escapes, repeated members and members that are not known do not count. -/
theorem decode_spec_sample :
    Json.IsAdmitted spacedText (spacedAlert []) ∧
      Json.IsAdmitted longerText (spacedAlert [("x", .array [.null, .object []])]) ∧
      decode spacedText = .ok (some (.alert "😀")) ∧
      decode longerText = .ok (some (.alert "😀")) := by
  obtain ⟨-, houtcome, -, hinsert, -⟩ := decode_spec
  have htext : Json.IsAdmitted spacedText (spacedAlert []) :=
    Value.ofString?_eq_some_iff.mp (by rfl)
  have hlonger : Json.IsAdmitted longerText (spacedAlert [("x", .array [.null, .object []])]) :=
    Value.ofString?_eq_some_iff.mp (by rfl)
  have hmethod : (spacedAlert []).Member "method" (.string Method.alert.name) :=
    ⟨[("method", .string "")], [("alert", .array [.string "😀"])], rfl, by decide⟩
  have halert : (spacedAlert []).Member "alert" (.array [.string "😀"]) :=
    ⟨[("method", .string ""), ("method", .string "alert")], [], rfl, nofun⟩
  have hdecode : decode spacedText = .ok (some (.alert "😀")) :=
    (houtcome _ _ htext _).mpr (.message .alert _ hmethod (.alert _ _ halert (.array _)))
  have hsame := hinsert spacedText longerText [] _ "x" (.array [.null, .object []]) htext hlonger
    (by decide) (by rintro (_ | _ | _) - <;> decide)
  exact ⟨htext, hlonger, hdecode, hsame.trans hdecode⟩

/-- A number that is too large for double precision. -/
def hugeNumber : Json.Number := ⟨false, ['1'], none, some ⟨'e', none, ['9', '9', '9']⟩⟩

/-- An object with a method that is not known, and with a number that is too large. -/
def hugeValue : Value := .object [("method", .string "x"), ("n", .number hugeNumber)]

/-- A document of this value. -/
def hugeText : String := "\x7b\"method\":\"x\",\"n\":1e999\x7d"

lemma isDocument_hugeText : IsDocument hugeText hugeValue := by
  have hwritten : hugeNumber.IsWritten := by
    refine ⟨⟨nofun, List.all_iff_forall_prop.mp (by decide)⟩, nofun, nofun, fun e he => ?_⟩
    obtain rfl := Option.some.inj he
    exact ⟨.inl rfl, .inl rfl, nofun, List.all_iff_forall_prop.mp (by decide)⟩
  have hstring (s : List Char)
      (hs : (s.all fun c => decide (c ≠ '"' ∧ c ≠ '\\' ∧ 0x20 ≤ c.toNat)) = true) :=
    Json.Token.IsSpelled.string s s (Json.isText_plain (List.all_iff_forall_prop.mp hs))
  have hmethod := (((Json.Row.nil.token .openObject).token
    (hstring ['m', 'e', 't', 'h', 'o', 'd'] (by decide))).token .colon).token
    (hstring ['x'] (by decide))
  exact ((((hmethod.token .comma).token (hstring ['n'] (by decide))).token .colon).token
    (.number hugeNumber hwritten)).token .closeObject

/-- An object with a method that is not known, and with the escape of a surrogate on its own. -/
def loneText : String := "\x7b\"method\":\"x\",\"s\":\"\\ud800\"\x7d"

/-- A document of little depth whose method is not known does not always give nothing: with a number
that is too large, although in a member that no method knows, the text is no JSON to the decoder.
Nor is a text with the escape of a surrogate on its own, which denotes no character. -/
theorem not_decode_spec :
    IsDocument hugeText hugeValue ∧ hugeValue.Nested maxDepth ∧ Decodes hugeValue (.ok none) ∧
      decode hugeText = .error .invalidJson ∧ decode loneText = .error .invalidJson ∧
      ¬∀ text v, IsDocument text v → v.Nested maxDepth → ∀ r, decode text = r ↔ Decodes v r := by
  have hnested : hugeValue.Nested maxDepth := by
    refine .object 126 _ (List.forall_mem_cons.mpr ⟨.string _ _, ?_⟩)
    exact List.forall_mem_singleton.mpr (.number _ hugeNumber)
  have hunknown : Decodes hugeValue (.ok none) :=
    .unknown "x" ⟨[], [("n", .number hugeNumber)], rfl, by decide⟩ (by rintro ⟨⟩ <;> decide)
  have hinvalid : decode hugeText = .error .invalidJson := by rfl
  have hlone : decode loneText = .error .invalidJson := by rfl
  refine ⟨isDocument_hugeText, hnested, hunknown, hinvalid, hlone, fun h => ?_⟩
  have hok := (h hugeText hugeValue isDocument_hugeText hnested _).mpr hunknown
  rw [hinvalid] at hok
  cases hok

end Message

end FleetAgent.Channel
