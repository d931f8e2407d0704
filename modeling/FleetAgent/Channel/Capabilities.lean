/-
# Capability sets

A device tells the server which optional features it has.  A capability set maps names to
truth values; its entries are kept in the order of their names, each name once, so two sets
with the same entries are equal.
-/
namespace FleetAgent.Channel

/-- A map from the names of features to truth values. -/
structure Capabilities where
  entries : List (String × Bool)
  sorted : (entries.map Prod.fst).Pairwise (· < ·)
deriving DecidableEq, Repr

namespace Capabilities

/-- The set without entries. -/
def empty : Capabilities := ⟨[], List.Pairwise.nil⟩

/-- Entries with the value of `name` set to `on`. -/
def insertEntry (name : String) (on : Bool) : List (String × Bool) → List (String × Bool)
  | [] => [(name, on)]
  | (k, v) :: rest =>
    if name < k then (name, on) :: (k, v) :: rest
    else if name = k then (name, on) :: rest
    else (k, v) :: insertEntry name on rest

/-- Setting a value adds at most its own name. -/
theorem mem_insertEntry_names {name k : String} {on : Bool} {es : List (String × Bool)}
    (h : k ∈ (insertEntry name on es).map Prod.fst) : k = name ∨ k ∈ es.map Prod.fst := by
  induction es with
  | nil => simp [insertEntry] at h; exact .inl h
  | cons e rest ih =>
    obtain ⟨k', v⟩ := e
    simp only [insertEntry] at h
    split at h
    · simp only [List.map_cons, List.mem_cons] at h ⊢
      rcases h with h | h
      · exact .inl h
      · exact .inr h
    · split at h
      · simp only [List.map_cons, List.mem_cons] at h ⊢
        exact h.imp_right .inr
      · simp only [List.map_cons, List.mem_cons] at h ⊢
        rcases h with h | h
        · exact .inr (.inl h)
        · exact (ih h).imp_right .inr

/-- Setting a value keeps the names in their order, each of them once. -/
theorem sorted_insertEntry {name : String} {on : Bool} {es : List (String × Bool)}
    (h : (es.map Prod.fst).Pairwise (· < ·)) :
    ((insertEntry name on es).map Prod.fst).Pairwise (· < ·) := by
  induction es with
  | nil => simp [insertEntry]
  | cons e rest ih =>
    obtain ⟨k, v⟩ := e
    simp only [List.map_cons, List.pairwise_cons] at h
    simp only [insertEntry]
    split
    · next hlt =>
      simp only [List.map_cons, List.pairwise_cons, List.mem_cons]
      refine ⟨?_, h⟩
      rintro a (rfl | ha)
      · exact hlt
      · exact String.lt_trans hlt (h.1 a ha)
    · next hge =>
      split
      · next heq => subst heq; simpa using h
      · next hne =>
        have hk : k < name := by
          rcases Std.lt_trichotomy name k with hlt | heq | hgt
          · exact absurd hlt hge
          · exact absurd heq hne
          · exact hgt
        simp only [List.map_cons, List.pairwise_cons]
        refine ⟨fun a ha => ?_, ih h.2⟩
        rcases mem_insertEntry_names ha with rfl | ha
        · exact hk
        · exact h.1 a ha

/-- The set with the value of `name` set to `on`. -/
def insert (c : Capabilities) (name : String) (on : Bool) : Capabilities :=
  ⟨insertEntry name on c.entries, sorted_insertEntry c.sorted⟩

/-- The set of a list of entries; the last of several entries with one name counts. -/
def ofList (entries : List (String × Bool)) : Capabilities :=
  entries.foldl (fun c e => c.insert e.1 e.2) empty

end Capabilities

end FleetAgent.Channel
