/-
# The values of documents

Whatever is read from a document is well-formed (`Value.WellFormed`): the keys of every table are
different, and every integer has 64 bits.

Tables under construction have different keys at any time (`Entries.WellFormed`), since an entry is
replaced together with its key (`Entries.WellFormed.set`) and added only where its key is new.  Each
change at the end of a path keeps this (`within_wellFormed`), so each line of a document does, and a
document as a whole (`wellFormed_ofString?`).
-/
import FleetAgent.Toml.Document
import Mathlib.Data.List.Nodup
import Mathlib.Tactic.Common
import Mathlib.Tactic.SplitIfs

namespace FleetAgent.Toml

/-- Entries of which each has its own key. -/
def HasDistinctKeys {α : Type} (entries : List (String × α)) : Prop :=
  (entries.map Prod.fst).Nodup

/-- A value that a document can hold. -/
inductive Value.WellFormed : Value → Prop where
  | text (s : String) : WellFormed (.text s)
  | integer (n : Int) (h : Scan.isInt64 n = true) : WellFormed (.integer n)
  | float : WellFormed .float
  | boolean (b : Bool) : WellFormed (.boolean b)
  | dateTime : WellFormed .dateTime
  | array (items : List Value) (h : ∀ v ∈ items, WellFormed v) : WellFormed (.array items)
  | table (entries : List (String × Value)) (hkeys : HasDistinctKeys entries)
      (h : ∀ e ∈ entries, WellFormed e.2) : WellFormed (.table entries)

lemma Value.wellFormed_table_iff {entries : List (String × Value)} :
    (table entries).WellFormed ↔ HasDistinctKeys entries ∧ ∀ e ∈ entries, e.2.WellFormed := by
  constructor
  · intro h
    cases h with
    | table _ hkeys h => exact ⟨hkeys, h⟩
  · rintro ⟨hkeys, h⟩
    exact .table entries hkeys h

lemma mem_of_lookup? {entries : List (String × Value)} {key : String} {v : Value}
    (h : lookup? key entries = some v) : (key, v) ∈ entries := by
  obtain ⟨e, he, rfl⟩ := Option.map_eq_some_iff.mp h
  have hkey : e.1 = key := by simpa using List.find?_some he
  exact hkey ▸ List.mem_of_find?_eq_some he

/-- In a table with different keys the value of a key is that of its entry. -/
lemma lookup?_eq_some_iff {entries : List (String × Value)} {key : String} {v : Value}
    (hkeys : HasDistinctKeys entries) : lookup? key entries = some v ↔ (key, v) ∈ entries := by
  constructor
  · exact mem_of_lookup?
  · intro hmem
    have hfind : (entries.find? fun e => e.1 == key).isSome := by
      rw [List.find?_isSome]
      exact ⟨(key, v), hmem, beq_self_eq_true key⟩
    obtain ⟨e, he⟩ := Option.isSome_iff_exists.mp hfind
    have hkey : e.1 = key := by simpa using List.find?_some he
    obtain rfl : e = (key, v) :=
      List.inj_on_of_nodup_map hkeys (List.mem_of_find?_eq_some he) hmem hkey
    rw [lookup?, he]
    rfl

/-- An entry under construction with well-formed values and different keys. -/
inductive Draft.WellFormed : Draft → Prop where
  | value (v : Value) (h : v.WellFormed) : WellFormed (.value v)
  | table (implicit dotted : Bool) (es : List (String × Draft)) (hkeys : HasDistinctKeys es)
      (h : ∀ e ∈ es, WellFormed e.2) : WellFormed (.table implicit dotted es)
  | tables (items : List (List (String × Draft))) (hkeys : ∀ es ∈ items, HasDistinctKeys es)
      (h : ∀ es ∈ items, ∀ e ∈ es, WellFormed e.2) : WellFormed (.tables items)

namespace Draft

variable {es : Entries} {key : String} {d : Draft}

/-- Entries of a table under construction that are well-formed. -/
structure Entries.WellFormed (es : Entries) : Prop where
  keys : HasDistinctKeys es
  each : ∀ e ∈ es, e.2.WellFormed

lemma wellFormed_nil : Entries.WellFormed [] := ⟨List.nodup_nil, by simp⟩

lemma wellFormed_table_iff {implicit dotted : Bool} :
    (table implicit dotted es).WellFormed ↔ Entries.WellFormed es := by
  constructor
  · rintro (_ | ⟨_, _, _, hkeys, h⟩)
    exact ⟨hkeys, h⟩
  · rintro ⟨hkeys, h⟩
    exact .table implicit dotted es hkeys h

lemma wellFormed_tables_iff {items : List Entries} :
    (tables items).WellFormed ↔ ∀ es ∈ items, Entries.WellFormed es := by
  constructor
  · rintro (_ | _ | ⟨_, hkeys, h⟩)
    exact fun es hes => ⟨hkeys es hes, h es hes⟩
  · intro h
    exact .tables items (fun es hes => (h es hes).keys) fun es hes => (h es hes).each

lemma mem_of_find? (h : find? key es = some d) : (key, d) ∈ es := by
  obtain ⟨e, he, rfl⟩ := Option.map_eq_some_iff.mp h
  have hkey : e.1 = key := by simpa using List.find?_some he
  exact hkey ▸ List.mem_of_find?_eq_some he

lemma not_mem_of_find? (h : find? key es = none) : key ∉ es.map Prod.fst := by
  rw [find?, Option.map_eq_none_iff, List.find?_eq_none] at h
  intro hmem
  obtain ⟨e, he, rfl⟩ := List.mem_map.mp hmem
  exact h e he (beq_self_eq_true _)

/-! ## Changing entries -/

namespace Entries.WellFormed

lemma find (h : Entries.WellFormed es) (hfind : find? key es = some d) : d.WellFormed :=
  h.each _ (mem_of_find? hfind)

lemma erase (h : Entries.WellFormed es) (key : String) :
    Entries.WellFormed (Draft.erase key es) where
  keys := h.keys.sublist (List.filter_sublist.map Prod.fst)
  each e he := h.each e (List.mem_of_mem_filter he)

/-- An entry is added under a key that is new. -/
lemma concat (h : Entries.WellFormed es) (hkey : key ∉ es.map Prod.fst) (hd : d.WellFormed) :
    Entries.WellFormed (es ++ [(key, d)]) where
  keys := by
    rw [HasDistinctKeys, List.map_append, List.map_singleton]
    exact h.keys.append (List.nodup_singleton key) (by simpa using hkey)
  each e he := by
    rcases List.mem_append.mp he with he | he
    · exact h.each e he
    · rw [List.mem_singleton.mp he]
      exact hd

lemma set (h : Entries.WellFormed es) (key : String) (hd : d.WellFormed) :
    Entries.WellFormed (Draft.set key d es) := by
  refine (h.erase key).concat ?_ hd
  simp [Draft.erase]

end Entries.WellFormed

/-- **A change at the end of a path.**  If a change keeps entries well-formed and gives a result
with some property, so does the same change at the end of a path. -/
lemma within_wellFormed {α : Type} {P : α → Prop} {change : Bool → Entries → Option (α × Entries)}
    (hchange : ∀ own es a es', Entries.WellFormed es → change own es = some (a, es') →
      P a ∧ Entries.WellFormed es')
    {dotted own : Bool} {path : List String} {a : α} {es' : Entries}
    (h : Entries.WellFormed es) (hwithin : within dotted change path own es = some (a, es')) :
    P a ∧ Entries.WellFormed es' := by
  induction path generalizing own es a es' with
  | nil => exact hchange own es a es' h hwithin
  | cons key path ih =>
    rw [within] at hwithin
    split at hwithin
    · -- a table that is missing is made
      obtain ⟨⟨b, inner⟩, hinner, heq⟩ := Option.map_eq_some_iff.mp hwithin
      obtain ⟨rfl, rfl⟩ := Prod.mk.inj heq
      obtain ⟨hb, hinner⟩ := ih wellFormed_nil hinner
      exact ⟨hb, h.set key (wellFormed_table_iff.mpr hinner)⟩
    · next implicit own' inner hfind =>
      split_ifs at hwithin
      obtain ⟨⟨b, inner'⟩, hinner, heq⟩ := Option.map_eq_some_iff.mp hwithin
      obtain ⟨rfl, rfl⟩ := Prod.mk.inj heq
      obtain ⟨hb, hinner⟩ := ih (wellFormed_table_iff.mp (h.find hfind)) hinner
      exact ⟨hb, h.set key (wellFormed_table_iff.mpr hinner)⟩
    · next latest earlier hfind =>
      obtain ⟨⟨b, latest'⟩, hlatest, heq⟩ := Option.map_eq_some_iff.mp hwithin
      obtain ⟨rfl, rfl⟩ := Prod.mk.inj heq
      obtain ⟨hold, hearlier⟩ := List.forall_mem_cons.mp (wellFormed_tables_iff.mp (h.find hfind))
      obtain ⟨hb, hlatest⟩ := ih hold hlatest
      exact ⟨hb, h.set key (wellFormed_tables_iff.mpr (List.forall_mem_cons.mpr
        ⟨hlatest, hearlier⟩))⟩
    · exact nomatch hwithin

lemma wellFormed_insert? {path : List String} {v : Value} {es' : Entries}
    (h : Entries.WellFormed es) (hv : v.WellFormed) (hinsert : insert? path key v es = some es') :
    Entries.WellFormed es' := by
  obtain ⟨⟨u, es''⟩, hwithin, rfl⟩ := Option.map_eq_some_iff.mp hinsert
  refine (within_wellFormed (P := fun _ => True) ?_ h hwithin).2
  intro own es u es' h hadd
  split_ifs at hadd with hnew
  obtain ⟨-, rfl⟩ := Prod.mk.inj (Option.some.inj hadd)
  have hfind : find? key es = none := by
    rw [← Option.not_isSome_iff_eq_none]
    intro hsome
    exact hnew (by simp [hsome])
  exact ⟨trivial, h.concat (not_mem_of_find? hfind) (.value v hv)⟩

/-! ## The values of drafts -/

lemma entriesValue_eq (es : Entries) : entriesValue es = es.map fun e => (e.1, e.2.toValue) := by
  induction es with
  | nil => rfl
  | cons e es ih => rw [entriesValue, ih, List.map_cons]

lemma tablesValue_eq (items : List Entries) :
    tablesValue items = items.map fun es => .table (entriesValue es) := by
  induction items with
  | nil => rfl
  | cons es items ih => rw [tablesValue, ih, List.map_cons]

/-- The values of entries have the keys of the entries. -/
lemma wellFormed_entriesValue (hkeys : HasDistinctKeys es)
    (h : ∀ e ∈ es, e.2.toValue.WellFormed) : (Value.table (entriesValue es)).WellFormed := by
  rw [entriesValue_eq]
  refine .table _ ?_ ?_
  · rwa [HasDistinctKeys, List.map_map]
  · intro e he
    obtain ⟨d, hd, rfl⟩ := List.mem_map.mp he
    exact h d hd

lemma WellFormed.toValue (h : d.WellFormed) : d.toValue.WellFormed := by
  induction h with
  | value v h => exact h
  | table implicit dotted es hkeys h ih => exact wellFormed_entriesValue hkeys ih
  | tables items hkeys h ih =>
    rw [Draft.toValue, tablesValue_eq]
    refine .array _ ?_
    intro v hv
    obtain ⟨es, hes, rfl⟩ := List.mem_map.mp (List.mem_reverse.mp hv)
    exact wellFormed_entriesValue (hkeys es hes) (ih es hes)

lemma Entries.WellFormed.toValue (h : Entries.WellFormed es) :
    (Value.table (entriesValue es)).WellFormed :=
  wellFormed_entriesValue h.keys fun e he => (h.each e he).toValue

end Draft

/-! ## Documents under construction -/

namespace Drafts

open Draft (Entries)

variable {d d' : Drafts} {path : List String}

/-- The tables of a document under construction are well-formed. -/
structure WellFormed (d : Drafts) : Prop where
  root : Entries.WellFormed d.root
  current : Entries.WellFormed d.current

lemma wellFormed_empty : empty.WellFormed := ⟨Draft.wellFormed_nil, Draft.wellFormed_nil⟩

lemma wellFormed_place {key : String} {own : Bool} {es es' : Entries} {u : Unit}
    (h : d.WellFormed) (hes : Entries.WellFormed es) (hplace : d.place key own es = some (u, es')) :
    Entries.WellFormed es' := by
  rw [place] at hplace
  split_ifs at hplace
  · split at hplace
    · obtain ⟨-, rfl⟩ := Prod.mk.inj (Option.some.inj hplace)
      exact hes.set key (Draft.wellFormed_tables_iff.mpr (by simpa using h.current))
    · next items hfind =>
      obtain ⟨-, rfl⟩ := Prod.mk.inj (Option.some.inj hplace)
      have hitems := Draft.wellFormed_tables_iff.mp (hes.find hfind)
      exact hes.set key (Draft.wellFormed_tables_iff.mpr
        (List.forall_mem_cons.mpr ⟨h.current, hitems⟩))
    · exact nomatch hplace
  · obtain ⟨-, rfl⟩ := Prod.mk.inj (Option.some.inj hplace)
    exact hes.set key (Draft.wellFormed_table_iff.mpr h.current)

lemma WellFormed.close {root : Entries} (h : d.WellFormed) (hclose : d.close? = some root) :
    Entries.WellFormed root := by
  rw [close?] at hclose
  split at hclose
  · obtain rfl := Option.some.inj hclose
    exact h.current
  · next key hkey =>
    obtain ⟨⟨u, root'⟩, hwithin, rfl⟩ := Option.map_eq_some_iff.mp hclose
    refine (Draft.within_wellFormed (P := fun _ => True) ?_ h.root hwithin).2
    exact fun own es u es' hes hplace => ⟨trivial, wellFormed_place h hes hplace⟩

lemma wellFormed_claim {key : String} {own : Bool} {es es' inner : Entries}
    (hes : Entries.WellFormed es) (hclaim : claim key own es = some (inner, es')) :
    Entries.WellFormed inner ∧ Entries.WellFormed es' := by
  rw [claim] at hclaim
  split at hclaim
  · obtain ⟨rfl, rfl⟩ := Prod.mk.inj (Option.some.inj hclaim)
    exact ⟨Draft.wellFormed_nil, hes⟩
  · next hfind =>
    obtain ⟨rfl, rfl⟩ := Prod.mk.inj (Option.some.inj hclaim)
    exact ⟨Draft.wellFormed_table_iff.mp (hes.find hfind), hes.erase key⟩
  · exact nomatch hclaim

lemma wellFormed_permit? {key : String} {own : Bool} {es es' : Entries} {u : Unit}
    (hes : Entries.WellFormed es) (hpermit : permit? key own es = some (u, es')) :
    Entries.WellFormed es' := by
  rw [permit?] at hpermit
  split at hpermit
  · obtain ⟨-, rfl⟩ := Prod.mk.inj (Option.some.inj hpermit)
    exact hes
  · obtain ⟨-, rfl⟩ := Prod.mk.inj (Option.some.inj hpermit)
    exact hes
  · exact nomatch hpermit

lemma WellFormed.openTable (h : d.WellFormed) (hopen : d.openTable? path = some d') :
    d'.WellFormed := by
  simp only [openTable?, Option.bind_eq_bind, Option.bind_eq_some_iff] at hopen
  obtain ⟨root, hroot, key, -, ⟨inner, root'⟩, hwithin, heq⟩ := hopen
  obtain rfl := Option.some.inj heq
  obtain ⟨hinner, hroot⟩ := Draft.within_wellFormed
    (fun own es inner es' => wellFormed_claim) (h.close hroot) hwithin
  exact ⟨hroot, hinner⟩

lemma WellFormed.openItem (h : d.WellFormed) (hopen : d.openItem? path = some d') :
    d'.WellFormed := by
  simp only [openItem?, Option.bind_eq_bind, Option.bind_eq_some_iff] at hopen
  obtain ⟨root, hroot, key, -, ⟨u, root'⟩, hwithin, heq⟩ := hopen
  obtain rfl := Option.some.inj heq
  obtain ⟨-, hroot⟩ := Draft.within_wellFormed (P := fun _ => True)
    (fun own es u es' hes hpermit => ⟨trivial, wellFormed_permit? hes hpermit⟩) (h.close hroot)
    hwithin
  exact ⟨hroot, Draft.wellFormed_nil⟩

lemma WellFormed.insert {v : Value} (h : d.WellFormed) (hv : v.WellFormed)
    (hinsert : d.insert? path v = some d') : d'.WellFormed := by
  simp only [insert?, Option.bind_eq_bind, Option.bind_eq_some_iff] at hinsert
  obtain ⟨key, -, current, hcurrent, heq⟩ := hinsert
  obtain rfl := Option.some.inj heq
  exact ⟨h.root, Draft.wellFormed_insert? h.current hv hcurrent⟩

end Drafts

/-! ## Reading values -/

namespace Scan

variable {s rest : List Char} {v : Value} {item : Scan Value}

/-- What a scanner reads are well-formed values. -/
def ReadsWellFormed (item : Scan Value) : Prop :=
  ∀ s v rest, item s = some (v, rest) → v.WellFormed

lemma wellFormed_radixNumber {bits : Nat} (h : radixNumber bits s = some (v, rest)) :
    v.WellFormed := by
  simp only [radixNumber, radix, Option.bind_eq_bind, Option.bind_eq_some_iff] at h
  obtain ⟨⟨n, s'⟩, ⟨ds, -, hn⟩, heq⟩ := h
  obtain ⟨rfl, -⟩ := Prod.mk.inj (Option.some.inj heq)
  split_ifs at hn with hsize
  obtain ⟨rfl, -⟩ := Prod.mk.inj (Option.some.inj hn)
  exact .integer _ hsize

lemma wellFormed_number (h : number s = some (v, rest)) : v.WellFormed := by
  simp only [number, Option.bind_eq_bind, Option.bind_eq_some_iff] at h
  obtain ⟨⟨w, s'⟩, -, h⟩ := h
  dsimp only at h
  split at h
  · generalize (if w.negative then -Int.ofNat w.mantissa else Int.ofNat w.mantissa) = n at h
    split_ifs at h with hsize
    obtain ⟨rfl, -⟩ := Prod.mk.inj (Option.some.inj h)
    exact .integer _ hsize
  · split_ifs at h
    obtain ⟨rfl, -⟩ := Prod.mk.inj (Option.some.inj h)
    exact .float

lemma wellFormed_numeric (h : numeric s = some (v, rest)) : v.WellFormed := by
  unfold numeric at h
  split_ifs at h
  · obtain ⟨_, -, heq⟩ := Option.map_eq_some_iff.mp h
    obtain ⟨rfl, -⟩ := Prod.mk.inj heq
    exact .dateTime
  · obtain ⟨_, -, heq⟩ := Option.map_eq_some_iff.mp h
    obtain ⟨rfl, -⟩ := Prod.mk.inj heq
    exact .dateTime
  split at h
  · obtain ⟨rfl, -⟩ := Prod.mk.inj (Option.some.inj h)
    exact .float
  · split at h
    · exact wellFormed_radixNumber h
    · exact wellFormed_radixNumber h
    · exact wellFormed_radixNumber h
    · exact wellFormed_number h

lemma wellFormed_scalar (h : scalar s = some (v, rest)) : v.WellFormed := by
  unfold scalar at h
  split at h
  · obtain ⟨_, -, heq⟩ := Option.map_eq_some_iff.mp h
    obtain ⟨rfl, -⟩ := Prod.mk.inj heq
    exact .text _
  · obtain ⟨_, -, heq⟩ := Option.map_eq_some_iff.mp h
    obtain ⟨rfl, -⟩ := Prod.mk.inj heq
    exact .text _
  · obtain ⟨_, -, heq⟩ := Option.map_eq_some_iff.mp h
    obtain ⟨rfl, -⟩ := Prod.mk.inj heq
    exact .boolean true
  · obtain ⟨_, -, heq⟩ := Option.map_eq_some_iff.mp h
    obtain ⟨rfl, -⟩ := Prod.mk.inj heq
    exact .boolean false
  · exact wellFormed_numeric h

lemma ReadsWellFormed.arrayFrom (hitem : ReadsWellFormed item) (fuel : Nat) (done : List Value)
    (hdone : ∀ v ∈ done, v.WellFormed) : ReadsWellFormed (arrayFrom item fuel done) := by
  intro s v rest h
  induction fuel generalizing done s with
  | zero => exact nomatch h
  | succ fuel ih =>
    rw [Scan.arrayFrom] at h
    split at h
    · obtain ⟨rfl, -⟩ := Prod.mk.inj (Option.some.inj h)
      exact .array _ (by simpa using hdone)
    · simp only [Option.bind_eq_bind, Option.bind_eq_some_iff] at h
      obtain ⟨⟨w, s'⟩, hw, h⟩ := h
      have hmore : ∀ v ∈ w :: done, v.WellFormed :=
        List.forall_mem_cons.mpr ⟨hitem _ _ _ hw, hdone⟩
      dsimp only at h
      split at h
      · exact ih (w :: done) hmore _ h
      · obtain ⟨rfl, -⟩ := Prod.mk.inj (Option.some.inj h)
        exact .array _ fun v hv => hmore v (List.mem_reverse.mp hv)
      · exact nomatch h

lemma ReadsWellFormed.pair (hitem : ReadsWellFormed item) {path : List String}
    (h : pair item s = some ((path, v), rest)) : v.WellFormed := by
  simp only [Scan.pair, Option.bind_eq_bind, Option.bind_eq_some_iff] at h
  obtain ⟨⟨path', s'⟩, -, h⟩ := h
  dsimp only at h
  split at h
  · obtain ⟨⟨w, s''⟩, hw, heq⟩ := Option.bind_eq_some_iff.mp h
    obtain ⟨hpair, -⟩ := Prod.mk.inj (Option.some.inj heq)
    obtain ⟨-, rfl⟩ := Prod.mk.inj hpair
    exact hitem _ _ _ hw
  · exact nomatch h

lemma ReadsWellFormed.inlineFrom (hitem : ReadsWellFormed item) (fuel : Nat)
    (es : Draft.Entries) (hes : es.WellFormed) : ReadsWellFormed (inlineFrom item fuel es) := by
  intro s v rest h
  induction fuel generalizing es s with
  | zero => exact nomatch h
  | succ fuel ih =>
    simp only [Scan.inlineFrom, Option.bind_eq_bind, Option.bind_eq_some_iff] at h
    obtain ⟨⟨⟨path, w⟩, s'⟩, hpair, key, -, es', hinsert, h⟩ := h
    have hes' := Draft.wellFormed_insert? hes (hitem.pair hpair) hinsert
    dsimp only at h
    split at h
    · exact ih es' hes' _ h
    · obtain ⟨rfl, -⟩ := Prod.mk.inj (Option.some.inj h)
      exact hes'.toValue
    · exact nomatch h

lemma ReadsWellFormed.inlineTable (hitem : ReadsWellFormed item) :
    ReadsWellFormed (inlineTable item) := by
  intro s v rest h
  rw [Scan.inlineTable] at h
  split at h
  · obtain ⟨rfl, -⟩ := Prod.mk.inj (Option.some.inj h)
    exact .table [] List.nodup_nil (by simp)
  · exact hitem.inlineFrom _ [] Draft.wellFormed_nil _ _ _ h

/-- Values are well-formed, however deep they are nested. -/
lemma readsWellFormed_value (depth : Nat) : ReadsWellFormed (value depth) := by
  induction depth with
  | zero =>
    intro s v rest h
    unfold value at h
    split at h
    · exact nomatch h
    · exact nomatch h
    · exact wellFormed_scalar h
  | succ depth ih =>
    intro s v rest h
    unfold value at h
    split at h
    · exact ih.arrayFrom _ [] (by simp) _ _ _ h
    · exact ih.inlineTable _ _ _ h
    · exact wellFormed_scalar h

end Scan

/-! ## Documents -/

namespace Document

variable {d d' : Drafts} {s rest : List Char}

lemma wellFormed_header? (hd : d.WellFormed) (h : header? d s = some (d', rest)) :
    d'.WellFormed := by
  unfold header? at h
  split at h
  · simp only [Option.bind_eq_bind, Option.bind_eq_some_iff] at h
    obtain ⟨⟨path, s'⟩, -, h⟩ := h
    dsimp only at h
    split at h
    · simp only [Option.bind_eq_some_iff] at h
      obtain ⟨opened, hopen, _, -, heq⟩ := h
      obtain ⟨rfl, -⟩ := Prod.mk.inj (Option.some.inj heq)
      exact hd.openItem hopen
    · exact nomatch h
  · simp only [Option.bind_eq_bind, Option.bind_eq_some_iff] at h
    obtain ⟨⟨path, s'⟩, -, h⟩ := h
    dsimp only at h
    split at h
    · simp only [Option.bind_eq_some_iff] at h
      obtain ⟨opened, hopen, _, -, heq⟩ := h
      obtain ⟨rfl, -⟩ := Prod.mk.inj (Option.some.inj heq)
      exact hd.openTable hopen
    · exact nomatch h

lemma wellFormed_keyValue? (hd : d.WellFormed) (h : keyValue? d s = some (d', rest)) :
    d'.WellFormed := by
  simp only [keyValue?, Option.bind_eq_bind, Option.bind_eq_some_iff] at h
  obtain ⟨⟨path, s'⟩, -, h⟩ := h
  dsimp only at h
  split at h
  · simp only [Option.bind_eq_some_iff] at h
    obtain ⟨⟨v, s''⟩, hv, inserted, hinsert, _, -, heq⟩ := h
    obtain ⟨rfl, -⟩ := Prod.mk.inj (Option.some.inj heq)
    exact hd.insert (Scan.readsWellFormed_value _ _ _ _ hv) hinsert
  · exact nomatch h

/-- Each line leaves the tables well-formed. -/
lemma wellFormed_line? (hd : d.WellFormed) (h : line? d s = some (d', rest)) :
    d'.WellFormed := by
  unfold line? at h
  split at h
  · exact wellFormed_header? hd h
  · obtain ⟨_, -, heq⟩ := Option.map_eq_some_iff.mp h
    exact (Prod.mk.inj heq).1 ▸ hd
  · obtain ⟨_, -, heq⟩ := Option.map_eq_some_iff.mp h
    exact (Prod.mk.inj heq).1 ▸ hd
  · obtain ⟨_, -, heq⟩ := Option.map_eq_some_iff.mp h
    exact (Prod.mk.inj heq).1 ▸ hd
  · exact wellFormed_keyValue? hd h

lemma wellFormed_linesFrom {fuel : Nat} (hd : d.WellFormed) (h : linesFrom fuel d s = some d') :
    d'.WellFormed := by
  induction fuel generalizing d s with
  | zero => exact nomatch h
  | succ fuel ih =>
    rw [linesFrom] at h
    split at h
    · obtain rfl := Option.some.inj h
      exact hd
    · obtain ⟨⟨next, s'⟩, hline, h⟩ := Option.bind_eq_some_iff.mp h
      exact ih (wellFormed_line? hd hline) h

/-- **The values of documents.**  The root table of a document is well-formed. -/
theorem wellFormed_ofString? {document : String} {entries : List (String × Value)}
    (h : ofString? document = some entries) : (Value.table entries).WellFormed := by
  simp only [ofString?, ofChars?, Option.bind_eq_bind, Option.bind_eq_some_iff] at h
  obtain ⟨d, hlines, root, hroot, heq⟩ := h
  obtain rfl := Option.some.inj heq
  exact ((wellFormed_linesFrom Drafts.wellFormed_empty hlines).close hroot).toValue

end Document

end FleetAgent.Toml
