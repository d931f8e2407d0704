/-
# What a walk through an archive has seen

Nothing is assumed of the bytes of the archive.  A walk that succeeds has gone along a chain of
entries (`Chain`): it begins at the start of the archive, each entry stands at the position at
which the one before it stops, and no entry begins where the chain ends (`BeginsAt`).  There is
only one such chain (`Chain.unique`).

What has been found after some entries depends on these entries alone (`Tells`): on the last one
that is named as the payload, and on the last one that is named as the properties.  This is kept
by every visit, and so by the walk, which is followed by induction on its fuel.
-/
import FleetAgent.Proofs.Archive.Layout
import FleetAgent.Proofs.Text.Utf8
import FleetAgent.Update.Payload
import Mathlib.Order.Basic

namespace FleetAgent.Update.Payload

open FleetAgent.Archive

/-! ## Chains of entries -/

/-- An entry begins at a position. -/
def BeginsAt (archive : List UInt8) (pos : Nat) : Prop :=
  pos + 4 ≤ archive.length ∧ numberAt archive pos 4 = entrySignature

instance (archive : List UInt8) (pos : Nat) : Decidable (BeginsAt archive pos) :=
  inferInstanceAs (Decidable (_ ∧ _))

/-- The entries from one position to another, each with its position. -/
inductive Chain (archive : List UInt8) (directory : Except Failure Directory) :
    Nat → List (Nat × Entry) → Nat → Prop where
  | nil (pos : Nat) : Chain archive directory pos [] pos
  | cons (pos : Nat) (e : Entry) (es : List (Nat × Entry)) (stop : Nat)
      (hbegins : BeginsAt archive pos) (hstands : e.StandsAt archive directory pos)
      (hinside : e.dataOffset + e.storedSize ≤ archive.length)
      (hlater : Chain archive directory (e.dataOffset + e.storedSize + e.descriptorSize archive)
        es stop) :
      Chain archive directory pos ((pos, e) :: es) stop

/-- The last entry of a name in a row of entries. -/
def lastNamed? (archive : List UInt8) (name : String) (es : List (Nat × Entry)) :
    Option (Nat × Entry) :=
  es.reverse.find? fun x => nameAt archive x.1 == Text.Utf8.encode name

/-- An entry is the last one in a row of entries whose name has the bytes of `name`. -/
def IsLastNamed (archive : List UInt8) (name : String) (es : List (Nat × Entry))
    (x : Nat × Entry) : Prop :=
  nameAt archive x.1 = Text.Utf8.encode name ∧ ∃ before after, es = before ++ x :: after ∧
    ∀ y ∈ after, nameAt archive y.1 ≠ Text.Utf8.encode name

section

variable {archive : List UInt8} {directory : Except Failure Directory} {pos stop : Nat}
  {es : List (Nat × Entry)} {x : Nat × Entry} {e : Entry} {name : String}

/-- An entry stops at least the length of its header behind its position. -/
lemma lt_stop (h : e.StandsAt archive directory pos) :
    pos < e.dataOffset + e.storedSize + e.descriptorSize archive := by
  rw [h.dataOffset_eq, headerLength]
  omega

/-- The positions of a chain grow. -/
lemma Chain.pairwise_lt (h : Chain archive directory pos es stop) :
    (es.map Prod.fst ++ [stop]).Pairwise (· < ·) ∧ ∀ p ∈ es.map Prod.fst ++ [stop], pos ≤ p := by
  induction h with
  | nil pos => simp
  | cons pos e es stop hbegins hstands hinside hlater ih =>
    obtain ⟨hpairwise, hle⟩ := ih
    have hlt : ∀ p ∈ es.map Prod.fst ++ [stop], pos < p :=
      fun p hp => Nat.lt_of_lt_of_le (lt_stop hstands) (hle p hp)
    refine ⟨List.pairwise_cons.mpr ⟨hlt, hpairwise⟩, fun p hp => ?_⟩
    rcases List.mem_cons.mp hp with hp | hp
    · exact Nat.le_of_eq hp.symm
    · exact Nat.le_of_lt (hlt p hp)

/-- Every entry of a chain stands at its position, with its data inside the archive. -/
lemma Chain.standsAt (h : Chain archive directory pos es stop) (hx : x ∈ es) :
    x.2.StandsAt archive directory x.1 ∧ x.2.dataOffset + x.2.storedSize ≤ archive.length := by
  induction h with
  | nil pos => cases hx
  | cons pos e es stop hbegins hstands hinside hlater ih =>
    rcases List.mem_cons.mp hx with rfl | hx
    · exact ⟨hstands, hinside⟩
    · exact ih hx

/-- From a position there is one chain only that goes on for as long as entries begin. -/
lemma Chain.unique (h : Chain archive directory pos es stop) {es' : List (Nat × Entry)}
    {stop' : Nat} (h' : Chain archive directory pos es' stop') (hstop : ¬BeginsAt archive stop)
    (hstop' : ¬BeginsAt archive stop') : es = es' ∧ stop = stop' := by
  induction h generalizing es' with
  | nil pos =>
    cases h' with
    | nil => exact ⟨rfl, rfl⟩
    | cons _ e es' _ hbegins => exact absurd hbegins hstop
  | cons pos e es stop hbegins hstands hinside hlater ih =>
    cases h' with
    | nil => exact absurd hbegins hstop'
    | cons _ e' es' _ _ hstands' _ hlater' =>
      obtain rfl := hstands.unique hstands'
      obtain ⟨rfl, rfl⟩ := ih hlater' hstop
      exact ⟨rfl, rfl⟩

lemma lastNamed?_concat :
    lastNamed? archive name (es ++ [x])
      = if nameAt archive x.1 = Text.Utf8.encode name then some x
        else lastNamed? archive name es := by
  rw [lastNamed?, lastNamed?, List.reverse_append, List.reverse_singleton, List.singleton_append]
  by_cases hname : nameAt archive x.1 = Text.Utf8.encode name
  · rw [if_pos hname, List.find?_cons_of_pos (by simpa using hname)]
  · rw [if_neg hname, List.find?_cons_of_neg (by simpa using hname)]

lemma lastNamed?_eq_none_iff :
    lastNamed? archive name es = none ↔ ∀ x ∈ es, nameAt archive x.1 ≠ Text.Utf8.encode name := by
  rw [lastNamed?, List.find?_eq_none]
  simp

lemma lastNamed?_eq_some_iff :
    lastNamed? archive name es = some x ↔ IsLastNamed archive name es x := by
  rw [lastNamed?, List.find?_eq_some_iff_append, IsLastNamed, beq_iff_eq]
  refine and_congr_right fun _ => ⟨?_, ?_⟩
  · rintro ⟨later, early, hes, hlater⟩
    refine ⟨early.reverse, later.reverse, ?_, fun y hy => ?_⟩
    · rw [← List.reverse_reverse es, hes]
      simp
    · simpa using hlater y (List.mem_reverse.mp hy)
  · rintro ⟨before, after, rfl, hafter⟩
    refine ⟨after.reverse, before.reverse, by simp, fun y hy => ?_⟩
    simpa using hafter y (List.mem_reverse.mp hy)

lemma IsLastNamed.unique {y : Nat × Entry} (h : IsLastNamed archive name es x)
    (h' : IsLastNamed archive name es y) : x = y := by
  rw [← lastNamed?_eq_some_iff] at h h'
  exact Option.some.inj (h.symm.trans h')

end

/-! ## Visits -/

/-- What has been found is what a row of entries tells. -/
structure Tells (archive : List UInt8) (es : List (Nat × Entry)) (found : Found) : Prop where
  payload_eq : found.payload
    = (lastNamed? archive payloadName es).map fun x => (x.2.dataOffset, x.2.storedSize)
  stored : ∀ x ∈ es, nameAt archive x.1 = Text.Utf8.encode payloadName →
    x.2.method = storedMethod
  properties_none : lastNamed? archive propertiesName es = none → found.properties = none
  properties_some : ∀ x, lastNamed? archive propertiesName es = some x →
    ∃ bytes, propertyBytes archive x.2 = .ok bytes ∧ found.properties = some (propertyLines bytes)

section

variable {archive : List UInt8} {directory : Except Failure Directory} {pos next fuel : Nat}
  {es before : List (Nat × Entry)} {e : Entry} {found result : Found}

lemma tells_nil : Tells archive [] ⟨none, none⟩ where
  payload_eq := rfl
  stored := nofun
  properties_none _ := rfl
  properties_some := nofun

/-- A name of ASCII characters is told by its bytes. -/
lemma name_eq_iff (h : e.StandsAt archive directory pos) {name : String}
    (hname : ∀ c ∈ name.toList, c.toNat < 0x80) :
    e.name = name ↔ nameAt archive pos = Text.Utf8.encode name := by
  rw [h.name_eq, Text.Utf8.decodeLossy_eq_iff hname]

/-- A visit finds the payload, the properties, or nothing. -/
lemma visit_eq_ok (h : found.visit archive e = .ok result) :
    (e.name = payloadName ∧ e.method = storedMethod ∧
        result = { found with payload := some (e.dataOffset, e.storedSize) }) ∨
      (e.name ≠ payloadName ∧ e.name = propertiesName ∧ ∃ bytes,
        propertyBytes archive e = .ok bytes ∧
          result = { found with properties := some (propertyLines bytes) }) ∨
      (e.name ≠ payloadName ∧ e.name ≠ propertiesName ∧ result = found) := by
  rw [Found.visit] at h
  split_ifs at h with hpayload hstored hproperties
  · exact .inl ⟨hpayload, hstored, (Except.ok.inj h).symm⟩
  · obtain ⟨bytes, hbytes, h⟩ := bind_eq_ok.mp h
    exact .inr (.inl ⟨hpayload, hproperties, bytes, hbytes, (Except.ok.inj h).symm⟩)
  · exact .inr (.inr ⟨hpayload, hproperties, (Except.ok.inj h).symm⟩)

/-- A visit keeps that what has been found is what the entries tell. -/
lemma Tells.visit (h : Tells archive es found) (hstands : e.StandsAt archive directory pos)
    (hvisit : found.visit archive e = .ok result) : Tells archive (es ++ [(pos, e)]) result := by
  have hpayloadName : e.name = payloadName ↔ nameAt archive pos = Text.Utf8.encode payloadName :=
    name_eq_iff hstands (by simp [payloadName])
  have hpropertiesName :
      e.name = propertiesName ↔ nameAt archive pos = Text.Utf8.encode propertiesName :=
    name_eq_iff hstands (by simp [propertiesName])
  -- an entry that is not named as the payload need not be stored
  have hstored (hnew : e.name = payloadName → e.method = storedMethod) :
      ∀ x ∈ es ++ [(pos, e)], nameAt archive x.1 = Text.Utf8.encode payloadName →
        x.2.method = storedMethod := by
    intro x hx hname
    rcases List.mem_append.mp hx with hx | hx
    · exact h.stored x hx hname
    · obtain rfl := List.mem_singleton.mp hx
      exact hnew (hpayloadName.mpr hname)
  obtain ⟨hpayload, hmethod, rfl⟩ | ⟨hpayload, hproperties, bytes, hbytes, rfl⟩ |
    ⟨hpayload, hproperties, rfl⟩ := visit_eq_ok hvisit
  · have hproperties : e.name ≠ propertiesName := hpayload ▸ by decide
    refine ⟨?_, hstored fun _ => hmethod, ?_, ?_⟩
    · rw [lastNamed?_concat, if_pos (hpayloadName.mp hpayload), Option.map_some]
    · rw [lastNamed?_concat, if_neg (mt hpropertiesName.mpr hproperties)]
      exact h.properties_none
    · rw [lastNamed?_concat, if_neg (mt hpropertiesName.mpr hproperties)]
      exact h.properties_some
  · refine ⟨?_, hstored fun hname => absurd hname hpayload, ?_, ?_⟩
    · rw [lastNamed?_concat, if_neg (mt hpayloadName.mpr hpayload)]
      exact h.payload_eq
    · rw [lastNamed?_concat, if_pos (hpropertiesName.mp hproperties)]
      exact nofun
    · rw [lastNamed?_concat, if_pos (hpropertiesName.mp hproperties)]
      rintro x hx
      obtain rfl := Option.some.inj hx
      exact ⟨bytes, hbytes, rfl⟩
  · refine ⟨?_, hstored fun hname => absurd hname hpayload, ?_, ?_⟩
    · rw [lastNamed?_concat, if_neg (mt hpayloadName.mpr hpayload)]
      exact h.payload_eq
    · rw [lastNamed?_concat, if_neg (mt hpropertiesName.mpr hproperties)]
      exact h.properties_none
    · rw [lastNamed?_concat, if_neg (mt hpropertiesName.mpr hproperties)]
      exact h.properties_some

/-! ## Walks -/

lemma entryBegins_eq_ok {begins : Bool} (h : entryBegins archive pos = .ok begins) :
    begins = true ↔ BeginsAt archive pos := by
  obtain ⟨stop, hstop, h⟩ := bind_eq_ok.mp h
  obtain ⟨-, rfl⟩ := add_eq_ok_iff.mp hstop
  by_cases hroom : archive.length < pos + 4
  · rw [if_pos hroom] at h
    obtain rfl := Except.ok.inj h
    exact iff_of_false nofun fun hbegins => Nat.not_le.mpr hroom hbegins.1
  · rw [if_neg hroom] at h
    obtain ⟨signature, hsignature, h⟩ := bind_eq_ok.mp h
    obtain rfl := read32_eq_ok hsignature
    split_ifs at h with hentry hfirst
    · obtain rfl := Except.ok.inj h
      exact iff_of_true rfl ⟨Nat.not_lt.mp hroom, hentry⟩
    · obtain rfl := Except.ok.inj h
      exact iff_of_false nofun fun hbegins => hentry hbegins.2

/-- A step visits the entry at its position, whose data lies inside the archive. -/
lemma step_eq_ok (h : step archive directory pos found = .ok (next, result)) :
    ∃ e : Entry, e.StandsAt archive directory pos ∧
      e.dataOffset + e.storedSize ≤ archive.length ∧ found.visit archive e = .ok result ∧
      next = e.dataOffset + e.storedSize + e.descriptorSize archive := by
  obtain ⟨e, he, h⟩ := bind_eq_ok.mp h
  dsimp only at h
  split_ifs at h with hinside
  obtain ⟨visited, hvisit, h⟩ := bind_eq_ok.mp h
  obtain ⟨stop, hstop, h⟩ := bind_eq_ok.mp h
  cases h
  exact ⟨e, standsAt_of_ofArchive he, Nat.not_lt.mp hinside, hvisit, stop_eq_ok hstop⟩

/-- A walk that succeeds has gone along a chain, and has found what its entries tell. -/
lemma walk_eq_ok (h : walk archive directory fuel pos found = .ok result)
    (hbefore : Tells archive before found) :
    ∃ es stop, Chain archive directory pos es stop ∧ ¬ BeginsAt archive stop ∧
      Tells archive (before ++ es) result := by
  induction fuel generalizing pos found before with
  | zero => cases h
  | succ fuel ih =>
    obtain ⟨begins, hbegins, h⟩ := bind_eq_ok.mp h
    split_ifs at h with hcase
    · obtain ⟨⟨next, visited⟩, hstep, h⟩ := bind_eq_ok.mp h
      obtain ⟨e, hstands, hinside, hvisit, rfl⟩ := step_eq_ok hstep
      obtain ⟨es, stop, hchain, hstop, htells⟩ := ih h (hbefore.visit hstands hvisit)
      rw [List.append_assoc] at htells
      exact ⟨(pos, e) :: es, stop,
        .cons pos e es stop ((entryBegins_eq_ok hbegins).mp hcase) hstands hinside hchain,
        hstop, htells⟩
    · obtain rfl := Except.ok.inj h
      refine ⟨[], pos, .nil pos, mt (entryBegins_eq_ok hbegins).mpr hcase, ?_⟩
      rw [List.append_nil]
      exact hbefore

/-- An archive in which something has been found is a chain, and the chain tells what. -/
lemma find_eq_ok (h : find archive = .ok found) :
    ∃ es stop, Chain archive (Directory.ofArchive archive) 0 es stop ∧
      (archive.length < stop + 4 ∨ numberAt archive stop 4 ≠ entrySignature) ∧
      Tells archive es found := by
  obtain ⟨es, stop, hchain, hstop, htells⟩ := walk_eq_ok h tells_nil
  rw [BeginsAt, not_and_or, Nat.not_le] at hstop
  exact ⟨es, stop, hchain, hstop, htells⟩

end

end FleetAgent.Update.Payload
