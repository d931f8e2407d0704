/-
# Choosing a network interface

Without a configured hardware address the device is known by that of one of its network
interfaces.  The loopback interface, interfaces without a readable address and those with
the zero address are out; of the others, one that is up is preferred, and among equals the
one with the least name.
-/
import FleetAgent.Device.Mac
import FleetAgent.Text.Utf8

namespace FleetAgent.Device

/-- The directory of a network interface: its name, and the contents of its files `address` and
`operstate`, where it has them. -/
structure InterfaceDirectory where
  name : List UInt8
  address : Option (List UInt8)
  operState : Option (List UInt8)
deriving DecidableEq, Repr

/-- A network interface as its directory describes it: the texts of the files `address` and
`operstate`, where they can be read. -/
structure Interface where
  name : String
  address : Option String
  operState : Option String
deriving DecidableEq, Repr

/-- The interface that a directory describes.  Every name is read, whatever its bytes are; a file
can be read if it is UTF-8. -/
def Interface.ofDirectory (d : InterfaceDirectory) : Interface :=
  ⟨Text.Utf8.decodeLossy d.name, d.address.bind Text.Utf8.decode?,
    d.operState.bind Text.Utf8.decode?⟩

/-- A usable interface. -/
structure Candidate where
  down : Bool
  name : String
  mac : String
deriving DecidableEq, Repr

namespace Candidate

/-- The candidate of an interface, if it is usable. -/
def ofInterface? (i : Interface) : Option Candidate :=
  if i.name = "lo" then none
  else match i.address.bind Mac.ofString? with
    | some m =>
      if m.IsZero then none
      else some ⟨i.operState.map Text.trim != some "up", i.name, m.render⟩
    | none => none

/-- Whether `a` comes before `b`: interfaces that are up first, then by name, then by
address. -/
def Before (a b : Candidate) : Prop :=
  (a.down = false ∧ b.down = true)
    ∨ (a.down = b.down ∧ (a.name < b.name ∨ (a.name = b.name ∧ a.mac < b.mac)))

instance (a b : Candidate) : Decidable (Before a b) :=
  inferInstanceAs (Decidable ((a.down = false ∧ b.down = true)
    ∨ (a.down = b.down ∧ (a.name < b.name ∨ (a.name = b.name ∧ a.mac < b.mac)))))

/-- The earlier of two candidates. -/
def pick (a b : Candidate) : Candidate :=
  if Before b a then b else a

/-- The first candidate in the order of preference. -/
def first? : List Candidate → Option Candidate
  | [] => none
  | c :: cs => some (cs.foldl pick c)

end Candidate

/-- The hardware address of the preferred interface. -/
def discoverMac (interfaces : List Interface) : Except IdentityError String :=
  match Candidate.first? (interfaces.filterMap Candidate.ofInterface?) with
  | some c => .ok c.mac
  | none => .error .noMacAddress

end FleetAgent.Device
