/-
# Folders

A folder holds files, subfolders and symbolic links under relative paths, which are lists of
names.  Its view is `get?`: what stands at a path.  `put` and `remove` change one path and
leave the others alone (`get?_put`, `get?_remove`).  `resolve` follows a path as it is
written, through links and the components `.` and `..`, to the file it means.
-/
import FleetAgent.Storage.Fault
import FleetAgent.Text.Pieces

namespace FleetAgent.Storage

/-- The names on the way to an entry. -/
abbrev Path := List String

/-- An entry of a folder. -/
inductive Node where
  | file (content : List UInt8)
  | folder
  | link (target : Path)
deriving DecidableEq, Repr, Inhabited

/-- A folder at an absolute location. -/
structure Folder where
  location : String
  entries : List (Path × Node)
deriving DecidableEq, Repr, Inhabited

namespace Folder

/-- The folder without entries at a location. -/
def empty (location : String) : Folder := ⟨location, []⟩

/-- What stands at a path. -/
def get? (f : Folder) (p : Path) : Option Node :=
  f.entries.lookup p

/-- The folder without what stands at a path. -/
def remove (f : Folder) (p : Path) : Folder :=
  { f with entries := f.entries.filter fun e => e.1 != p }

/-- The folder with a node at a path. -/
def put (f : Folder) (p : Path) (n : Node) : Folder :=
  { f with entries := (p, n) :: (f.remove p).entries }

/-- The content of the file at a path. -/
def content? (f : Folder) (p : Path) : Option (List UInt8) :=
  match f.get? p with
  | some (.file content) => some content
  | _ => none

/-- Whether a path is a folder: the root, an entry that is one, or a path that an entry lies
below. -/
def isFolder (f : Folder) (p : Path) : Bool :=
  p.isEmpty || f.get? p == some .folder
    || f.entries.any fun e => p.isPrefixOf e.1 && p.length < e.1.length

/-- Dropping what stands at a path does not change what stands elsewhere. -/
theorem lookup_filter {p q : Path} {es : List (Path × Node)} (h : q ≠ p) :
    (es.filter fun e => e.1 != p).lookup q = es.lookup q := by
  induction es with
  | nil => rfl
  | cons e es ih =>
    obtain ⟨k, n⟩ := e
    by_cases hk : k = p
    · subst hk
      have hq : (q == k) = false := by simp [h]
      simp [List.lookup_cons, ih, hq]
    · simp [hk, List.lookup_cons, ih]

/-- Once what stands at a path has been dropped, nothing stands there. -/
theorem lookup_filter_self {p : Path} {es : List (Path × Node)} :
    (es.filter fun e => e.1 != p).lookup p = none := by
  induction es with
  | nil => rfl
  | cons e es ih =>
    obtain ⟨k, n⟩ := e
    by_cases hk : k = p
    · subst hk; simp [ih]
    · have hp : (p == k) = false := by simp [Ne.symm hk]
      simp [hk, List.lookup_cons, hp, ih]

/-- After a removal nothing stands at the path, and the other paths are as before. -/
theorem get?_remove (f : Folder) (p q : Path) :
    (f.remove p).get? q = if q = p then none else f.get? q := by
  by_cases h : q = p
  · subst h; simp [get?, remove, lookup_filter_self]
  · simp [get?, remove, lookup_filter h, h]

/-- After a change the node stands at the path, and the other paths are as before. -/
theorem get?_put (f : Folder) (p q : Path) (n : Node) :
    (f.put p n).get? q = if q = p then some n else f.get? q := by
  by_cases h : q = p
  · subst h; simp [get?, put]
  · have : (q == p) = false := by simp [h]
    simp [get?, put, remove, List.lookup_cons, this, lookup_filter h, h]

/-- The text of a path. -/
def pathText (f : Folder) (p : Path) : String :=
  Text.join "/" (f.location :: p)

/-- The components of a path as it is written below the folder. -/
def components (path : String) : List String :=
  (Text.splitAt (· == '/') path.toList).map String.ofList

/-- Follows components from the folder `done`.  Every link that is followed uses up one unit
of `fuel`; a path through too many links leads nowhere. -/
def resolveFrom (f : Folder) : Nat → Path → List String → Except Fault Path
  | 0, _, _ => .error .invalidInput
  | _ + 1, done, [] => .ok done
  | fuel + 1, done, name :: rest =>
    if name = "" ∨ name = "." then
      if f.isFolder done then resolveFrom f fuel done rest else .error .notADirectory
    else if !f.isFolder done then .error .notADirectory
    else if name = ".." then
      -- what lies above the folder is not known
      if done.isEmpty then .error .notFound else resolveFrom f fuel done.dropLast rest
    else
      match f.get? (done ++ [name]) with
      -- the target of a link is a path from the folder, wherever the link stands
      | some (.link target) => resolveFrom f fuel [] (target ++ rest)
      | some _ => resolveFrom f fuel (done ++ [name]) rest
      | none =>
        if f.isFolder (done ++ [name]) then resolveFrom f fuel (done ++ [name]) rest
        else .error .notFound

/-- A written path as it is seen from the folder; an absolute path must lead into it. -/
def relative? (f : Folder) (path : String) : Option String :=
  match path.toList with
  | '/' :: _ =>
    let start := (f.location ++ "/").toList
    if start.isPrefixOf path.toList then some (String.ofList (path.toList.drop start.length))
    else none
  | _ => some path

/-- The path that a written path means. -/
def resolve (f : Folder) (path : String) : Except Fault Path :=
  match f.relative? path with
  | none => .error .notFound
  | some path =>
    let names := components path
    f.resolveFrom (names.length + 4096) [] names

/-- The path of the entry that a written path names: a link at its end is not followed. -/
def resolveEntry (f : Folder) (path : String) : Except Fault Path :=
  match f.relative? path with
  | none => .error .notFound
  | some path =>
    let names := components path
    match names.getLast? with
    | none => .error .notFound
    | some last =>
      if last = "" ∨ last = "." ∨ last = ".." then .error .isADirectory
      else
        match f.resolveFrom (names.length + 4096) [] names.dropLast with
        | .error e => .error e
        | .ok parent =>
          if !f.isFolder parent then .error .notADirectory
          else
            match f.get? (parent ++ [last]) with
            | some .folder => .error .isADirectory
            | some _ => .ok (parent ++ [last])
            | none => .error .notFound

/-- The path that a path leads to when the links at its end are followed, one after another;
nothing need stand there.  A path through too many links leads nowhere. -/
def follow (f : Folder) : Nat → Path → Except Fault Path
  | 0, _ => .error .invalidInput
  | fuel + 1, p =>
    match f.get? p with
    | some (.link target) =>
      match target.getLast? with
      | none => .error .isADirectory
      | some last =>
        if last = "" ∨ last = "." ∨ last = ".." then .error .isADirectory
        else
          match f.resolveFrom (target.length + 4096) [] target.dropLast with
          | .error e => .error e
          | .ok parent => follow f fuel (parent ++ [last])
    | _ => .ok p

/-- The most links that are followed. -/
def maxLinks : Nat := 40

/-- The path of the file that is written when a file is opened at a path, which makes it if it
is not there. -/
def create (f : Folder) (p : Path) : Except Fault Path :=
  match f.follow (maxLinks + 1) p with
  | .error e => .error e
  | .ok q =>
    if f.isFolder q then .error .isADirectory
    else if f.isFolder q.dropLast then .ok q
    else .error .notFound

/-- The content of the file that a path leads to. -/
def contentAt (f : Folder) (p : Path) : Except Fault (List UInt8) :=
  match f.follow (maxLinks + 1) p with
  | .error e => .error e
  | .ok q =>
    match f.content? q with
    | some content => .ok content
    | none => if f.isFolder q then .error .isADirectory else .error .notFound

/-- The device that reads as an empty file. -/
def nullDevice : String := "/dev/null"

/-- The content of the file that a written path means. -/
def read (f : Folder) (path : String) : Except Fault (List UInt8) :=
  if path = nullDevice then .ok []
  else
    match f.resolve path with
    | .error e => .error e
    | .ok p =>
      match f.content? p with
      | some content => .ok content
      | none => .error .isADirectory

end Folder

end FleetAgent.Storage
