/-
# Members of objects

Of several members with one name the last one counts (`Value.Member`).  So two values say the same
if they differ only in the order of members, in members that do not count, and in the notation of
numbers (`Value.Alike`).
-/
import FleetAgent.Json.Value
import Mathlib.Data.List.Basic
import Mathlib.Tactic.Common

namespace FleetAgent.Json.Value

/-- A value is an object, and this is the last of its members with this name. -/
def Member (v : Value) (name : String) (w : Value) : Prop :=
  ∃ front back, v = .object (front ++ (name, w) :: back) ∧ ∀ m ∈ back, m.1 ≠ name

section

variable {v w w' x y : Value} {name other : String} {members front back : List (String × Value)}

lemma lookup?_eq_some_iff :
    lookup? name members = some w ↔ (Value.object members).Member name w := by
  rw [lookup?, Option.map_eq_some_iff]
  constructor
  · rintro ⟨m, hm, rfl⟩
    obtain ⟨hname, before, after, hsplit, hbefore⟩ := List.find?_eq_some_iff_append.mp hm
    obtain rfl : m.1 = name := beq_iff_eq.mp hname
    refine ⟨after.reverse, before.reverse, ?_, ?_⟩
    · rw [← List.reverse_reverse members, hsplit]
      simp
    · intro m' hm' heq
      have hne := hbefore m' (List.mem_reverse.mp hm')
      simp [heq] at hne
  · rintro ⟨front, back, hmembers, hback⟩
    obtain rfl := Value.object.inj hmembers
    refine ⟨(name, w), List.find?_eq_some_iff_append.mpr ⟨beq_self_eq_true name, ?_⟩, rfl⟩
    refine ⟨back.reverse, front.reverse, by simp, fun m hm => ?_⟩
    simp [hback m (List.mem_reverse.mp hm)]

lemma field?_eq_some_iff : v.field? name = some w ↔ v.Member name w := by
  cases v with
  | object members => exact lookup?_eq_some_iff
  | null | bool | number | string | array =>
    refine iff_of_false nofun ?_
    rintro ⟨front, back, hmembers, -⟩
    cases hmembers

/-- No two members of one name count. -/
lemma Member.unique (h : v.Member name w) (h' : v.Member name w') : w = w' :=
  Option.some.inj ((field?_eq_some_iff.mpr h).symm.trans (field?_eq_some_iff.mpr h'))

/-- A member leaves those of other names as they are. -/
lemma member_insert (hne : other ≠ name) :
    (Value.object (front ++ (name, x) :: back)).Member other w ↔
      (Value.object (front ++ back)).Member other w := by
  have hskip : ((name, x).1 == other) = false := beq_eq_false_iff_ne.mpr hne.symm
  rw [← lookup?_eq_some_iff, ← lookup?_eq_some_iff, lookup?, lookup?, List.reverse_append,
    List.reverse_append, List.reverse_cons, List.append_assoc, List.find?_append,
    List.find?_append, List.find?_append, List.find?_singleton, hskip]
  simp

/-- A member counts, unless a later one has its name. -/
lemma member_insert_self : (Value.object (front ++ (name, x) :: back)).Member name w ↔
    (Value.object back).Member name w ∨ (∀ m ∈ back, m.1 ≠ name) ∧ w = x := by
  have hself : ((name, x).1 == name) = true := beq_self_eq_true name
  have hsplit : (front ++ (name, x) :: back).reverse.find? (fun m => m.1 == name) =
      (back.reverse.find? fun m => m.1 == name).or (some (name, x)) := by
    rw [List.reverse_append, List.reverse_cons, List.append_assoc, List.find?_append,
      List.singleton_append, List.find?_cons, hself]
  rw [← lookup?_eq_some_iff, ← lookup?_eq_some_iff, lookup?, lookup?, hsplit]
  cases hback : back.reverse.find? fun m => m.1 == name with
  | none =>
    have hnone : ∀ m ∈ back, m.1 ≠ name := by simpa using hback
    simp only [Option.none_or, Option.map_some, Option.map_none, reduceCtorEq, false_or,
      Option.some.injEq]
    exact ⟨fun h => ⟨hnone, h.symm⟩, fun h => h.2.symm⟩
  | some m =>
    have hmem : m ∈ back := List.mem_reverse.mp (List.mem_of_find?_eq_some hback)
    have hname : m.1 = name := by simpa using List.find?_some hback
    simp only [Option.some_or, Option.map_some]
    exact ⟨.inl, fun h => h.resolve_right fun hnone => hnone.1 m hmem hname⟩

/-- A first member counts, unless a later one has its name. -/
lemma member_cons {m : String × Value} : (Value.object (m :: members)).Member name w ↔
    (Value.object members).Member name w ∨ (∀ m' ∈ members, m'.1 ≠ name) ∧ m = (name, w) := by
  obtain ⟨k, x⟩ := m
  by_cases hk : k = name
  · subst hk
    have hfirst : (Value.object ([] ++ (k, x) :: members)).Member k w ↔
        (Value.object members).Member k w ∨ (∀ m ∈ members, m.1 ≠ k) ∧ w = x := member_insert_self
    rw [List.nil_append] at hfirst
    rw [hfirst, Prod.mk.injEq, eq_self, true_and, eq_comm (a := x)]
  · have hfirst : (Value.object ([] ++ (k, x) :: members)).Member name w ↔
        (Value.object ([] ++ members)).Member name w := member_insert (Ne.symm hk)
    rw [List.nil_append, List.nil_append] at hfirst
    rw [hfirst]
    exact (or_iff_left fun h => hk (Prod.mk.inj h.2).1).symm

lemma Member.mem (h : (Value.object members).Member name w) : (name, w) ∈ members := by
  obtain ⟨front, back, heq, -⟩ := h
  rw [Value.object.inj heq]
  exact List.mem_append_right _ List.mem_cons_self

/-- Of the members with a name one counts. -/
lemma exists_member {m : String × Value} (h : m ∈ members) :
    ∃ w, (Value.object members).Member m.1 w := by
  have hfound : (members.reverse.find? fun m' => m'.1 == m.1).isSome = true :=
    List.find?_isSome.mpr ⟨m, List.mem_reverse.mpr h, beq_self_eq_true m.1⟩
  obtain ⟨m', hm'⟩ := Option.isSome_iff_exists.mp hfound
  refine ⟨m'.2, lookup?_eq_some_iff.mp ?_⟩
  rw [lookup?, hm', Option.map_some]

end

/-! ## Values that say the same -/

/-- Two values say the same.  The order of members is left open, and members that do not count, and
numbers. -/
inductive Alike : Value → Value → Prop where
  | null : Alike .null .null
  | bool (b : Bool) : Alike (.bool b) (.bool b)
  | number (n n' : Number) : Alike (.number n) (.number n')
  | string (s : String) : Alike (.string s) (.string s)
  | array (items items' : List Value) (hlength : items.length = items'.length)
      (h : ∀ (i : Nat) (hi : i < items.length) (hi' : i < items'.length),
        Alike items[i] items'[i]) : Alike (.array items) (.array items')
  | object (members members' : List (String × Value))
      (hnames : ∀ name, (∃ w, (Value.object members).Member name w) ↔
        ∃ w, (Value.object members').Member name w)
      (h : ∀ name w w', (Value.object members).Member name w →
        (Value.object members').Member name w' → Alike w w') :
      Alike (.object members) (.object members')

namespace Alike

variable {v v' w : Value} {name s : String} {b : Bool}

lemma symm (h : v.Alike v') : v'.Alike v := by
  induction h with
  | null => exact .null
  | bool b => exact .bool b
  | number n n' => exact .number n' n
  | string s => exact .string s
  | array items items' hlength h ih =>
    exact .array items' items hlength.symm fun i hi' hi => ih i hi hi'
  | object members members' hnames h ih =>
    exact .object members' members (fun name => (hnames name).symm)
      fun name w' w hw' hw => ih name w w' hw hw'

lemma member (h : v.Alike v') (hmember : v.Member name w) :
    ∃ w', v'.Member name w' ∧ w.Alike w' := by
  obtain ⟨front, back, rfl, -⟩ := id hmember
  cases h with
  | object _ members' hnames h =>
    obtain ⟨w', hw'⟩ := (hnames name).mp ⟨w, hmember⟩
    exact ⟨w', hw', h name w w' hmember hw'⟩

lemma member_string (h : v.Alike v') (hmember : v.Member name (.string s)) :
    v'.Member name (.string s) := by
  obtain ⟨w', hw', halike⟩ := h.member hmember
  cases halike
  exact hw'

lemma member_bool (h : v.Alike v') (hmember : v.Member name (.bool b)) :
    v'.Member name (.bool b) := by
  obtain ⟨w', hw', halike⟩ := h.member hmember
  cases halike
  exact hw'

end Alike

end FleetAgent.Json.Value
