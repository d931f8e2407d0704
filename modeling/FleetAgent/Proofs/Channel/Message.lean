/-
# Messages are read back

A message is written as a JSON value without numbers, whose containers are nested at most two
deep, so the text is read back as this value.  The value says what the message is: the method
comes back from its name, and a capability set from its entries, since they are in the order of
their names, each name once (`Capabilities.ofList_entries`).
-/
import FleetAgent.Channel.Message
import FleetAgent.Proofs.Json.Reader

namespace FleetAgent.Channel

/-! ## Capability sets -/

namespace Capabilities

/-- A name after all others is put at the end. -/
lemma insertEntry_of_lt {es : List (String × Bool)} {name : String} (on : Bool)
    (h : ∀ e ∈ es, e.1 < name) : insertEntry name on es = es ++ [(name, on)] := by
  induction es with
  | nil => rfl
  | cons e es ih =>
    obtain ⟨hlt, hrest⟩ := List.forall_mem_cons.mp h
    have hne : name ≠ e.1 := fun heq => String.lt_irrefl name (heq ▸ hlt)
    rw [insertEntry, if_neg (String.lt_asymm hlt), if_neg hne, ih hrest, List.cons_append]

/-- Entries in the order of their names, after those of a set, are put behind them. -/
lemma entries_foldl_insert {c : Capabilities} {es : List (String × Bool)}
    (h : ((c.entries ++ es).map Prod.fst).Pairwise (· < ·)) :
    (es.foldl (fun c e => c.insert e.1 e.2) c).entries = c.entries ++ es := by
  induction es generalizing c with
  | nil => simp
  | cons e es ih =>
    have hlast : ∀ e' ∈ c.entries, e'.1 < e.1 := by
      intro e' he'
      rw [List.map_append, List.pairwise_append] at h
      exact h.2.2 _ (List.mem_map_of_mem he') _ (List.mem_map_of_mem List.mem_cons_self)
    have hentries : (c.insert e.1 e.2).entries = c.entries ++ [e] := insertEntry_of_lt e.2 hlast
    rw [List.append_cons, ← hentries] at h
    rw [List.foldl_cons, ih h, hentries, ← List.append_cons]

/-- A set is made of its entries. -/
lemma ofList_entries (c : Capabilities) : ofList c.entries = c := by
  have hentries : (ofList c.entries).entries = c.entries := entries_foldl_insert c.sorted
  generalize ofList c.entries = made at hentries ⊢
  cases made
  cases hentries
  rfl

end Capabilities

namespace Message

/-- Members with different names are all effective. -/
lemma effective_eq_self {members : List (String × Json.Value)}
    (h : (members.map Prod.fst).Nodup) : effective members = members := by
  induction members with
  | nil => rfl
  | cons m members ih =>
    obtain ⟨hnot, hrest⟩ := List.nodup_cons.mp h
    have hlast : members.any (·.1 == m.1) = false := by
      rw [List.any_eq_false]
      intro m' hm' heq
      exact hnot (beq_iff_eq.mp heq ▸ List.mem_map_of_mem hm')
    have hlater : members.foldr (fun m later => if later.any (·.1 == m.1) then later
        else m :: later) [] = members := ih hrest
    rw [effective, List.foldr_cons, hlater, hlast]
    rfl

lemma capabilityEntries?_map (es : List (String × Bool)) :
    capabilityEntries? (es.map fun e => (e.1, .bool e.2)) = some es := by
  induction es with
  | nil => rfl
  | cons e es ih =>
    rw [capabilityEntries?] at ih ⊢
    rw [List.map_cons, List.mapM_cons, ih]
    rfl

/-- The value of a message has no numbers and no deep containers. -/
lemma readable_toJson (depth : Nat) (m : Message) : m.toJson.Readable (depth + 2) := by
  cases m with
  | capabilityReport c =>
    refine .object _ _ (List.forall_mem_cons.mpr ⟨.string _ _, ?_⟩)
    refine List.forall_mem_cons.mpr ⟨.object _ _ fun m hm => ?_, List.forall_mem_nil _⟩
    obtain ⟨e, -, rfl⟩ := List.mem_map.mp hm
    exact .bool _ e.2
  | alert text =>
    refine .object _ _ (List.forall_mem_cons.mpr ⟨.string _ _, ?_⟩)
    refine List.forall_mem_cons.mpr ⟨.object _ _ ?_, List.forall_mem_nil _⟩
    exact List.forall_mem_cons.mpr ⟨.string _ text, List.forall_mem_nil _⟩
  | shellAttach r =>
    refine .object _ _ (List.forall_mem_cons.mpr ⟨.string _ _, ?_⟩)
    refine List.forall_mem_cons.mpr ⟨.string _ r.mac, ?_⟩
    exact List.forall_mem_cons.mpr ⟨.string _ r.session, List.forall_mem_nil _⟩

/-- The entries of a capability set are all effective. -/
lemma effective_entries (c : Capabilities) :
    effective (c.entries.map fun e => (e.1, .bool e.2))
      = c.entries.map fun e => (e.1, .bool e.2) := by
  refine effective_eq_self ?_
  rw [List.map_map]
  have hnodup : (c.entries.map Prod.fst).Nodup := by
    refine c.sorted.imp ?_
    rintro name _ hlt rfl
    exact String.lt_irrefl name hlt
  exact hnodup

/-- A value with the name of a method denotes the message that its members make. -/
lemma ofJson_of_ofMembers? {v : Json.Value} {name : String} {method : Method} {m : Message}
    (hname : (v.field? "method").bind Json.Value.text? = some name)
    (hmethod : Method.ofName? name = some method) (hmembers : ofMembers? method v = some m) :
    ofJson v = .ok (some m) := by
  simp only [ofJson, hname, hmethod, hmembers]

/-- The value of a message denotes it. -/
lemma ofJson_toJson (m : Message) : ofJson m.toJson = .ok (some m) := by
  cases m with
  | capabilityReport c =>
    have hmembers : ofMembers? .capabilityReport (toJson (.capabilityReport c))
        = (capabilityEntries? (effective (c.entries.map fun e => (e.1, .bool e.2)))).bind
          fun es => some (.capabilityReport (.ofList es)) := rfl
    rw [effective_entries, capabilityEntries?_map, Option.bind_some,
      Capabilities.ofList_entries] at hmembers
    exact ofJson_of_ofMembers? rfl rfl hmembers
  | alert text | shellAttach r => rfl

/-- **Messages are read back.**  Every message, whatever its texts and names are made of, is
decoded from its text, and no two messages have the same text. -/
theorem decode_encode :
    (∀ m : Message, decode m.encode = .ok (some m)) ∧ Function.Injective encode := by
  have hdecode (m : Message) : decode m.encode = .ok (some m) := by
    rw [decode, encode, Json.Value.ofString?_render (readable_toJson 125 m)]
    exact ofJson_toJson m
  refine ⟨hdecode, fun m m' htext => ?_⟩
  have hsame : some m = some m' :=
    Except.ok.inj ((hdecode m).symm.trans ((congrArg decode htext).trans (hdecode m')))
  exact Option.some.inj hsame

end Message

end FleetAgent.Channel
