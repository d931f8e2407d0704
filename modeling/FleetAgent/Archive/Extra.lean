/-
# Extra fields

An entry carries a block of extra fields, each an identifier and a length of 16 bits followed
by the data.  The field with identifier 1 holds sizes of 64 bits.
-/
import FleetAgent.Archive.Bytes

namespace FleetAgent.Archive

/-- The identifier of the field that holds wide sizes. -/
def wideSizesId : Nat := 1

/-- Looks for the wide sizes from position `i` of the block on.  A field that overruns the
block ends the search. -/
def wideSizesFrom (extra : List UInt8) : Nat → Nat → Except Failure (Option (List Nat))
  | 0, _ => .error (.fault .endless)
  | fuel + 1, i => do
    if (← add i 4) ≤ extra.length then
      let id ← field extra i 2
      let len ← field extra (i + 2) 2
      let next ← add (i + 4) len
      match slice? extra (i + 4) len with
      | none => .ok none
      | some data =>
        if id = wideSizesId then .ok (some (number64s data))
        else wideSizesFrom extra fuel next
    else .ok none

/-- The numbers in the first field of wide sizes, if there is one. -/
def wideSizes (extra : List UInt8) : Except Failure (Option (List Nat)) :=
  wideSizesFrom extra (extra.length + 1) 0

/-- The wide size at an index, which an entry named `name` must have. -/
def wideSize (name : String) (extra : List UInt8) (index : Nat) : Except Failure Nat := do
  match (← wideSizes extra).bind (·[index]?) with
  | some size => .ok size
  | none => .error (.corrupt (.lacksSizes name))

end FleetAgent.Archive
