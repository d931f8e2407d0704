/-
# The registry keeps its books

The registry has the number of live sessions in one place and the set of their ids in another.
In a `Consistent` registry both are those of the slots that are held, there are no more slots
than allowed, and no two of them are held under one id.  Taking a slot and giving a held one
back keep a registry consistent, so its count is never lowered below zero.
-/
import FleetAgent.Shell.Registry
import Mathlib.Data.List.Basic
import Mathlib.Tactic.Common

namespace FleetAgent.Shell.Registry

/-- A registry whose count and ids are those of the slots that are held. -/
structure Consistent (r : Registry) : Prop where
  live_eq : r.live = r.held.length
  ids_eq : r.ids = r.held
  nodup : r.held.Nodup
  live_le : r.live ≤ r.maxSessions

lemma consistent_ofMax (maxSessions : Nat) : (ofMax maxSessions).Consistent where
  live_eq := rfl
  ids_eq := rfl
  nodup := List.nodup_nil
  live_le := Nat.zero_le _

variable {r : Registry} {id : String}

/-! ## Taking a slot -/

lemma isFree_iff : r.isFree id = true ↔ r.live < r.maxSessions ∧ id ∉ r.ids := by
  simp [isFree]

/-- The registry with one more slot. -/
def taken (r : Registry) (id : String) : Registry :=
  { r with live := r.live + 1, ids := id :: r.ids, held := id :: r.held }

lemma acquire_of_isFree (h : r.isFree id = true) : r.acquire id = (true, r.taken id) := by
  rw [acquire, if_pos h]
  rfl

lemma acquire_of_not_isFree (h : ¬r.isFree id = true) : r.acquire id = (false, r) := by
  rw [acquire, if_neg h]

lemma Consistent.taken (h : r.Consistent) (hfree : r.isFree id = true) :
    (r.taken id).Consistent := by
  obtain ⟨hlt, hnew⟩ := isFree_iff.mp hfree
  refine ⟨?_, ?_, ?_, hlt⟩
  · simp [Registry.taken, h.live_eq]
  · simp [Registry.taken, h.ids_eq]
  · exact List.nodup_cons.mpr ⟨h.ids_eq ▸ hnew, h.nodup⟩

/-! ## Giving a slot back -/

/-- A slot can only be given back while the count is positive. -/
lemma Consistent.live_pos (h : r.Consistent) (hid : id ∈ r.held) : 0 < r.live := by
  rw [h.live_eq]
  exact List.length_pos_of_mem hid

lemma Consistent.live_drop (h : r.Consistent) (hid : id ∈ r.held) :
    (r.drop id).live + 1 = r.live :=
  Nat.sub_add_cancel (h.live_pos hid)

lemma Consistent.drop (h : r.Consistent) (hid : id ∈ r.held) : (r.drop id).Consistent where
  live_eq := by
    have hlength := List.length_erase_of_mem hid
    simp only [Registry.drop]
    rw [hlength, h.live_eq]
  ids_eq := by
    simp only [Registry.drop]
    rw [h.ids_eq, h.nodup.erase_eq_filter]
  nodup := h.nodup.erase id
  live_le := Nat.le_trans (Nat.sub_le _ _) h.live_le

end FleetAgent.Shell.Registry
