/-
# Writing a file does not move other paths

A file can be made or written at a path that lies in a folder and is not a folder or a link
itself (`Folder.Admits`).  Then the folders stay the folders they are (`isFolder_put`), so a path
that could be followed before leads to the same place afterwards (`resolveFrom_put`, `follow_put`),
and reading through the path at which the file was opened gives what has been written
(`contentAt_put`).
-/
import FleetAgent.Storage.Folder
import Mathlib.Tactic.Common

namespace FleetAgent.Storage.Folder

/-- A file can be made or written at a path. -/
structure Admits (f : Folder) (q : Path) : Prop where
  not_folder : f.isFolder q = false
  not_link : ∀ target, f.get? q ≠ some (.link target)
  parent : f.isFolder q.dropLast = true

/-! ## Folders -/

lemma mem_of_get? {f : Folder} {p : Path} {n : Node} (h : f.get? p = some n) :
    (p, n) ∈ f.entries := by
  obtain ⟨l₁, l₂, hentries, -⟩ := List.lookup_eq_some_iff.mp h
  rw [hentries]
  simp

lemma isFolder_iff {f : Folder} {p : Path} :
    f.isFolder p = true ↔
      p = [] ∨ f.get? p = some .folder ∨ ∃ e ∈ f.entries, p <+: e.1 ∧ p.length < e.1.length := by
  simp [isFolder, or_assoc]

/-- The paths above a folder are folders. -/
lemma isFolder_of_prefix {f : Folder} {p q : Path} (hq : f.isFolder q = true) (hpq : p <+: q) :
    f.isFolder p = true := by
  rcases isFolder_iff.mp hq with rfl | hnode | ⟨e, he, hqe, hlt⟩
  · exact isFolder_iff.mpr (.inl (List.prefix_nil.mp hpq))
  · rcases Nat.lt_or_ge p.length q.length with hlt | hge
    · exact isFolder_iff.mpr (.inr (.inr ⟨_, mem_of_get? hnode, hpq, hlt⟩))
    · rw [hpq.eq_of_length_le hge]
      exact hq
  · exact isFolder_iff.mpr
      (.inr (.inr ⟨e, he, hpq.trans hqe, Nat.lt_of_le_of_lt hpq.length_le hlt⟩))

lemma prefix_dropLast {p q : Path} (hpq : p <+: q) (hlt : p.length < q.length) :
    p <+: q.dropLast := by
  obtain ⟨t, rfl⟩ := hpq
  have ht : t ≠ [] := by
    rintro rfl
    simp at hlt
  rw [List.dropLast_append_of_ne_nil ht]
  exact List.prefix_append p _

lemma mem_put {f : Folder} {q : Path} {n : Node} {e : Path × Node} :
    e ∈ (f.put q n).entries ↔ e = (q, n) ∨ e ∈ f.entries ∧ e.1 ≠ q := by
  simp [put, remove]

@[simp] lemma put_put (f : Folder) (q : Path) (m n : Node) : (f.put q m).put q n = f.put q n := by
  simp [put, remove, List.filter_filter]

section

variable {f : Folder} {q : Path}

/-- Writing a file makes and removes no folder. -/
lemma isFolder_put (h : f.Admits q) (content : List UInt8) (p : Path) :
    (f.put q (.file content)).isFolder p = f.isFolder p := by
  rw [Bool.eq_iff_iff]
  constructor
  · intro hp
    rcases isFolder_iff.mp hp with rfl | hnode | ⟨e, he, hpe, hlt⟩
    · exact isFolder_iff.mpr (.inl rfl)
    · rw [get?_put] at hnode
      split at hnode
      · cases hnode
      · exact isFolder_iff.mpr (.inr (.inl hnode))
    · rcases mem_put.mp he with rfl | ⟨he, -⟩
      · exact isFolder_of_prefix h.parent (prefix_dropLast hpe hlt)
      · exact isFolder_iff.mpr (.inr (.inr ⟨e, he, hpe, hlt⟩))
  · intro hp
    rcases isFolder_iff.mp hp with rfl | hnode | ⟨e, he, hpe, hlt⟩
    · exact isFolder_iff.mpr (.inl rfl)
    · have hne : p ≠ q := by
        rintro rfl
        exact absurd hp (by simp [h.not_folder])
      exact isFolder_iff.mpr (.inr (.inl (by rw [get?_put, if_neg hne, hnode])))
    · by_cases heq : e.1 = q
      · exact isFolder_iff.mpr
          (.inr (.inr ⟨_, mem_put.mpr (.inl rfl), heq ▸ hpe, heq ▸ hlt⟩))
      · exact isFolder_iff.mpr (.inr (.inr ⟨e, mem_put.mpr (.inr ⟨he, heq⟩), hpe, hlt⟩))

/-! ## Paths -/

/-- Writing a file does not change where components lead that have led somewhere before. -/
lemma resolveFrom_put (h : f.Admits q) (content : List UInt8) {fuel : Nat} {done r : Path}
    {names : List String} (hr : f.resolveFrom fuel done names = .ok r) :
    (f.put q (.file content)).resolveFrom fuel done names = .ok r := by
  induction fuel generalizing done names with
  | zero => simp [resolveFrom] at hr
  | succ fuel ih =>
    cases names with
    | nil => simpa [resolveFrom] using hr
    | cons name rest =>
      rw [resolveFrom] at hr ⊢
      simp only [isFolder_put h]
      by_cases hdot : name = "" ∨ name = "."
      · rw [if_pos hdot] at hr ⊢
        split at hr
        · rename_i hfolder
          rw [if_pos hfolder]
          exact ih hr
        · cases hr
      rw [if_neg hdot] at hr ⊢
      by_cases hfolder : (!f.isFolder done) = true
      · rw [if_pos hfolder] at hr
        cases hr
      rw [if_neg hfolder] at hr ⊢
      by_cases hup : name = ".."
      · rw [if_pos hup] at hr ⊢
        split at hr
        · cases hr
        · rename_i hroot
          rw [if_neg hroot]
          exact ih hr
      rw [if_neg hup] at hr ⊢
      rw [get?_put]
      by_cases hq : done ++ [name] = q
      · -- where the file is written there can only have been a file before
        rw [if_pos hq]
        subst hq
        cases hnode : f.get? (done ++ [name]) with
        | none => simp [hnode, h.not_folder] at hr
        | some n =>
          cases n with
          | file old => exact ih (by simpa [hnode] using hr)
          | folder => exact absurd (isFolder_iff.mpr (.inr (.inl hnode))) (by simp [h.not_folder])
          | link target => exact absurd hnode (h.not_link target)
      · rw [if_neg hq]
        cases hnode : f.get? (done ++ [name]) with
        | none =>
          rw [hnode] at hr
          dsimp only at hr ⊢
          split at hr
          · rename_i hbelow
            rw [if_pos hbelow]
            exact ih hr
          · cases hr
        | some n => cases n <;> exact ih (by simpa [hnode] using hr)

/-- What a path leads to through links is not a link. -/
lemma get?_ne_link_of_follow {fuel : Nat} {p : Path} (hp : f.follow fuel p = .ok q)
    (target : Path) : f.get? q ≠ some (.link target) := by
  induction fuel generalizing p with
  | zero => simp [follow] at hp
  | succ fuel ih =>
    rw [follow] at hp
    split at hp
    · split at hp
      · cases hp
      · split at hp
        · cases hp
        · split at hp
          · cases hp
          · exact ih hp
    · rename_i hother
      cases hp
      exact hother target

/-- Writing a file where a path leads does not change that. -/
lemma follow_put (h : f.Admits q) (content : List UInt8) {fuel : Nat} {p : Path}
    (hp : f.follow fuel p = .ok q) : (f.put q (.file content)).follow fuel p = .ok q := by
  induction fuel generalizing p with
  | zero => simp [follow] at hp
  | succ fuel ih =>
    rw [follow, get?_put]
    by_cases hpq : p = q
    · rw [if_pos hpq, hpq]
    rw [if_neg hpq]
    rw [follow] at hp
    cases hnode : f.get? p with
    | none =>
      rw [hnode] at hp
      exact hp
    | some n =>
      rw [hnode] at hp
      cases n with
      | file old => exact hp
      | folder => exact hp
      | link target =>
        dsimp only at hp ⊢
        cases hlast : target.getLast? with
        | none => simp [hlast] at hp
        | some last =>
          simp only [hlast] at hp ⊢
          split at hp
          · cases hp
          · rename_i hname
            rw [if_neg hname]
            split at hp
            · cases hp
            · rename_i parent hparent
              rw [resolveFrom_put h content hparent]
              exact ih hp

lemma admits_of_create {p : Path} (hp : f.create p = .ok q) :
    f.follow (maxLinks + 1) p = .ok q ∧ f.Admits q := by
  rw [create] at hp
  split at hp
  · cases hp
  · rename_i file hfollow
    split at hp
    · cases hp
    · rename_i hfolder
      split at hp
      · rename_i hparent
        cases hp
        exact ⟨hfollow, Bool.eq_false_iff.mpr hfolder, get?_ne_link_of_follow hfollow, hparent⟩
      · cases hp

/-- What is written to the file that is opened at a path is read through the path. -/
lemma contentAt_put {p : Path} (hp : f.create p = .ok q) (content : List UInt8) :
    (f.put q (.file content)).contentAt p = .ok content := by
  obtain ⟨hfollow, hadmits⟩ := admits_of_create hp
  rw [contentAt, follow_put hadmits content hfollow]
  simp [content?, get?_put]

end

end FleetAgent.Storage.Folder
