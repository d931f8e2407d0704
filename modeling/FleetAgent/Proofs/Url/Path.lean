/-
# The file that a URL names

The segments of a path are the pieces between its slashes, behind the one that it begins with.  So
the file that a URL names is the last of these pieces that is not empty, unless that means a folder
(`Names`, `fileName?_eq_some_iff`).  Nothing else is asked of the path, whatever has been read as one.
-/
import FleetAgent.Proofs.Text.Pieces
import FleetAgent.Url.Basic

namespace FleetAgent.Url

variable {u : Url} {name : String} {segments : List String}

/-- The pieces of a text between slashes. -/
def pieces (text : String) : List String :=
  (text.toList.splitOn '/').map String.ofList

/-- A name is the last of some pieces that is not empty. -/
def IsLastOf (segments : List String) (name : String) : Prop :=
  name ≠ "" ∧ ∃ front back, segments = front ++ name :: back ∧ ∀ segment ∈ back, segment = ""

/-- A URL names a file: the last piece of its path that is not empty, unless that means a folder. -/
def Names (u : Url) (name : String) : Prop :=
  name ≠ "." ∧ name ≠ ".." ∧ ∃ rest, u.path = "/" ++ rest ∧ IsLastOf (pieces rest) name

lemma IsLastOf.mem (h : IsLastOf segments name) : name ∈ segments := by
  obtain ⟨-, front, back, rfl, -⟩ := h
  simp

/-- A path has segments if it begins with a slash, and they are the pieces of what follows. -/
lemma segments?_eq_some_iff : u.segments? = some segments ↔
    ∃ rest, u.path = "/" ++ rest ∧ pieces rest = segments := by
  have hpath (rest : String) : u.path = "/" ++ rest ↔ u.path.toList = '/' :: rest.toList := by
    rw [← String.toList_inj, String.toList_append]
    rfl
  rw [segments?]
  constructor
  · intro h
    split at h
    · next rest hrest =>
      refine ⟨String.ofList rest, (hpath _).mpr (by rw [hrest, String.toList_ofList]), ?_⟩
      rw [pieces, String.toList_ofList, List.splitOn, ← Text.splitAt_eq]
      exact Option.some.inj h
    · cases h
  · rintro ⟨rest, hrest, rfl⟩
    rw [(hpath rest).mp hrest, pieces, List.splitOn, ← Text.splitAt_eq]
    rfl

/-- No slash stands in a piece, and every piece stands in the text. -/
lemma piece_of_mem {text piece : String} (h : piece ∈ pieces text) :
    '/' ∉ piece.toList ∧ piece.toList <:+: text.toList := by
  obtain ⟨cs, hcs, rfl⟩ := List.mem_map.mp h
  rw [String.toList_ofList]
  have hcut : Text.Separated (· == '/') text.toList (text.toList.splitOn '/') :=
    Text.separated_splitOnP _ _
  constructor
  · intro hslash
    exact absurd (hcut.of_mem hcs hslash) (by simp)
  · exact hcut.infix_of_mem hcs

/-- The last segment that is not empty is found from the end. -/
lemma find?_reverse_eq_some_iff :
    (segments.reverse.find? fun s => !s.isEmpty) = some name ↔ IsLastOf segments name := by
  rw [List.find?_eq_some_iff_append, IsLastOf]
  constructor
  · rintro ⟨hname, back, front, hsegments, hback⟩
    refine ⟨by simpa using hname, front.reverse, back.reverse, ?_, ?_⟩
    · simpa using congrArg List.reverse hsegments
    · intro s hs
      simpa using hback s (List.mem_reverse.mp hs)
  · rintro ⟨hname, front, back, rfl, hback⟩
    refine ⟨by simpa using hname, back.reverse, front.reverse, by simp, ?_⟩
    intro s hs
    simpa using hback s (List.mem_reverse.mp hs)

/-- The file that a URL names is found. -/
lemma fileName?_eq_some_iff : u.fileName? = some name ↔ u.Names name := by
  rw [fileName?, Names]
  constructor
  · intro h
    split at h
    · next last hlast =>
      split_ifs at h with hdots
      obtain rfl := Option.some.inj h
      rw [not_or] at hdots
      -- without segments nothing would have been found
      cases hsegments : u.segments? with
      | none => simp [hsegments] at hlast
      | some segments =>
        obtain ⟨rest, hrest, rfl⟩ := segments?_eq_some_iff.mp hsegments
        rw [hsegments, Option.getD_some, find?_reverse_eq_some_iff] at hlast
        exact ⟨hdots.1, hdots.2, rest, hrest, hlast⟩
    · cases h
  · rintro ⟨hdot, hdots, rest, hrest, hlast⟩
    rw [segments?_eq_some_iff.mpr ⟨rest, hrest, rfl⟩, Option.getD_some,
      find?_reverse_eq_some_iff.mpr hlast]
    dsimp only
    rw [if_neg (not_or.mpr ⟨hdot, hdots⟩)]

end FleetAgent.Url
