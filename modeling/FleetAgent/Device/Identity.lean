/-
# The identity of a device

What the server learns about a device: its hardware address, its type and the version of its
software.  The address is the configured one or, without one, that of a network interface.
The three attributes are sent under fixed names, in the order of these names.
-/
import FleetAgent.Device.Interfaces
import FleetAgent.Json.Value

namespace FleetAgent.Device

/-- The attributes of a device. -/
structure Identity where
  mac : String
  deviceType : String
  softwareVersion : String
deriving DecidableEq, Repr

/-- The identity for a configured address, or for the interfaces of the device if none is
configured. -/
def Identity.resolve (mac : Option String) (deviceType softwareVersion : String)
    (interfaces : List Interface) : Except IdentityError Identity :=
  let address := match mac with
    | some given => normalizeMac given
    | none => discoverMac interfaces
  address.map fun m => ⟨m, deviceType, softwareVersion⟩

/-- The attributes under the names that the server knows them by. -/
def Identity.metadata (d : Identity) : List (String × String) :=
  [("rdfm.hardware.devtype", d.deviceType), ("rdfm.hardware.macaddr", d.mac),
    ("rdfm.software.version", d.softwareVersion)]

/-- The attributes as a JSON object. -/
def Identity.metadataJson (d : Identity) : Json.Value :=
  .object (d.metadata.map fun m => (m.1, .string m.2))

end FleetAgent.Device
