/-
# Tables under construction

While a document is read its tables may still grow.  A draft of a table remembers how it came
into being: by a header of its own, only as part of the name of another table (`implicit`),
or by a dotted key (`dotted`).  A table may get a header of its own once, unless it was made
by a dotted key; dotted keys may extend only tables that dotted keys made.

`Draft.within` goes down a path of keys, making the tables that are missing, and changes the
table at its end.
-/
import FleetAgent.Toml.Value

namespace FleetAgent.Toml

/-- An entry of a table under construction. -/
inductive Draft where
  | value (v : Value)
  | table (implicit dotted : Bool) (entries : List (String × Draft))
  /-- An array of tables, the latest first. -/
  | tables (items : List (List (String × Draft)))
deriving Inhabited

namespace Draft

/-- The entries of a table under construction. -/
abbrev Entries := List (String × Draft)

/-- The entry of a key. -/
def find? (key : String) (es : Entries) : Option Draft :=
  (es.find? fun e => e.1 == key).map Prod.snd

/-- The entries without a key. -/
def erase (key : String) (es : Entries) : Entries :=
  es.filter fun e => e.1 != key

/-- The entries with the value of a key replaced or added. -/
def set (key : String) (d : Draft) (es : Entries) : Entries :=
  erase key es ++ [(key, d)]

/-- Changes the table at the end of a path.  The change is given whether that table was made
by a dotted key, and may refuse.  `dotted` tells whether the path is that of a dotted key. -/
def within {α : Type} (dotted : Bool) (change : Bool → Entries → Option (α × Entries)) :
    List String → Bool → Entries → Option (α × Entries)
  | [], own, es => change own es
  | key :: path, _, es =>
    match find? key es with
    | none => (within dotted change path dotted []).map fun r =>
        (r.1, set key (.table true dotted r.2) es)
    | some (.table implicit own inner) =>
      if dotted && !implicit then none
      else (within dotted change path own inner).map fun r =>
        (r.1, set key (.table implicit own r.2) es)
    | some (.tables (latest :: earlier)) =>
      (within dotted change path false latest).map fun r =>
        (r.1, set key (.tables (r.2 :: earlier)) es)
    | _ => none

/-- Adds a value under a dotted key.  The last table on the way must have been made by a
dotted key if the key has more than one part, and the key must be new. -/
def insert? (path : List String) (key : String) (v : Value) (es : Entries) : Option Entries :=
  let add : Bool → Entries → Option (Unit × Entries) := fun own es =>
    if own == path.isEmpty || (find? key es).isSome then none
    else some ((), es ++ [(key, .value v)])
  (within true add path false es).map Prod.snd

mutual

/-- The value of an entry. -/
def toValue : Draft → Value
  | value v => v
  | table _ _ es => .table (entriesValue es)
  | tables items => .array (tablesValue items).reverse

/-- The values of entries. -/
def entriesValue : List (String × Draft) → List (String × Value)
  | [] => []
  | (key, d) :: es => (key, d.toValue) :: entriesValue es

/-- The values of tables. -/
def tablesValue : List (List (String × Draft)) → List Value
  | [] => []
  | es :: items => .table (entriesValue es) :: tablesValue items

end

end Draft

/-- A document under construction: its tables without the one in progress, that table, and
where it belongs. -/
structure Drafts where
  root : Draft.Entries
  current : Draft.Entries
  path : List String
  inArray : Bool
deriving Inhabited

namespace Drafts

/-- The empty document, whose root is in progress. -/
def empty : Drafts := ⟨[], [], [], false⟩

/-- Puts the table in progress into its place among the entries of its parent. -/
def place (d : Drafts) (key : String) (_own : Bool) (es : Draft.Entries) :
    Option (Unit × Draft.Entries) :=
  if d.inArray then
    match Draft.find? key es with
    | none => some ((), Draft.set key (.tables [d.current]) es)
    | some (.tables items) => some ((), Draft.set key (.tables (d.current :: items)) es)
    | _ => none
  else some ((), Draft.set key (.table false false d.current) es)

/-- The tables of the document with the table in progress in its place. -/
def close? (d : Drafts) : Option Draft.Entries :=
  match d.path.getLast? with
  | none => some d.current
  | some key => (Draft.within false (d.place key) d.path.dropLast false d.root).map Prod.snd

/-- Takes the entries of a table that gets its header out of its parent. -/
def claim (key : String) (_own : Bool) (es : Draft.Entries) :
    Option (Draft.Entries × Draft.Entries) :=
  match Draft.find? key es with
  | none => some ([], es)
  | some (.table true false inner) => some (inner, Draft.erase key es)
  | _ => none

/-- Checks that a table may be added to the array of tables with a name. -/
def permit? (key : String) (_own : Bool) (es : Draft.Entries) :
    Option (Unit × Draft.Entries) :=
  match Draft.find? key es with
  | none | some (.tables _) => some ((), es)
  | _ => none

/-- Begins the table with a header. -/
def openTable? (d : Drafts) (path : List String) : Option Drafts := do
  let root ← d.close?
  let key ← path.getLast?
  let (inner, root) ← Draft.within false (claim key) path.dropLast false root
  return ⟨root, inner, path, false⟩

/-- Begins a further table of an array of tables. -/
def openItem? (d : Drafts) (path : List String) : Option Drafts := do
  let root ← d.close?
  let key ← path.getLast?
  let (_, root) ← Draft.within false (permit? key) path.dropLast false root
  return ⟨root, [], path, true⟩

/-- Adds a value under a key to the table in progress. -/
def insert? (d : Drafts) (path : List String) (v : Value) : Option Drafts := do
  let key ← path.getLast?
  let current ← Draft.insert? path.dropLast key v d.current
  return { d with current := current }

end Drafts

end FleetAgent.Toml
