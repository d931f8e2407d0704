/-
# URLs

A URL as the agent looks at it: its scheme, and the text of its path.  The segments of a path are
the pieces between its slashes, and the file that a URL names is the last of them that is not
empty.
-/
import FleetAgent.Text.Pieces

namespace FleetAgent

/-- A URL. -/
structure Url where
  scheme : String
  /-- The path, without the query and the fragment that may stand behind it. -/
  path : String
deriving DecidableEq, Repr, Inhabited

namespace Url

/-- The segments of the path; a path that does not begin with a slash has none. -/
def segments? (u : Url) : Option (List String) :=
  match u.path.toList with
  | '/' :: rest => some ((Text.splitAt (· == '/') rest).map String.ofList)
  | _ => none

/-- The last segment of the path that is not empty, unless it means a folder. -/
def fileName? (u : Url) : Option String :=
  match (u.segments?.getD []).reverse.find? fun s => !s.isEmpty with
  | some name => if name = "." ∨ name = ".." then none else some name
  | none => none

end Url

end FleetAgent
