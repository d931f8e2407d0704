/-
# Hardware addresses

A hardware address is six octets.  It is read from six groups of two hexadecimal digits that
are separated by colons or hyphens, in any mixture and with blanks around them, and written
with uppercase digits and colons.
-/
import FleetAgent.Text.Blank
import FleetAgent.Text.Hex
import FleetAgent.Text.Pieces

namespace FleetAgent.Device

/-- A hardware address. -/
structure Mac where
  octets : List UInt8
  size_eq : octets.length = 6
deriving DecidableEq, Repr

namespace Mac

/-- Whether a character separates two groups. -/
def isSeparator (c : Char) : Bool :=
  c == ':' || c == '-'

/-- The octet that a group of exactly two digits denotes. -/
def octet? : List Char → Option UInt8
  | [a, b] =>
    match Text.Hex.value? a, Text.Hex.value? b with
    | some x, some y => some (UInt8.ofNat (16 * x + y))
    | _, _ => none
  | _ => none

/-- Reads an address. -/
def ofString? (s : String) : Option Mac :=
  match (Text.splitAt isSeparator (Text.trimChars s.toList)).mapM octet? with
  | some octets => if h : octets.length = 6 then some ⟨octets, h⟩ else none
  | none => none

/-- The uppercase digits of an octet. -/
def octetText (b : UInt8) : String :=
  String.ofList ((Text.Hex.ofByte b).map Char.toUpper)

/-- The canonical text of an address. -/
def render (m : Mac) : String :=
  Text.join ":" (m.octets.map octetText)

/-- The address of all zero octets, which belongs to no device. -/
def IsZero (m : Mac) : Prop :=
  ∀ b ∈ m.octets, b = 0

instance (m : Mac) : Decidable m.IsZero :=
  inferInstanceAs (Decidable (∀ b ∈ m.octets, b = 0))

end Mac

/-- Why the identity of a device could not be determined. -/
inductive IdentityError where
  | noMacAddress
  | invalidMac (given : String)
deriving DecidableEq, Repr

/-- The text of an identity error. -/
def IdentityError.message : IdentityError → String
  | .noMacAddress => "no network interface with a usable MAC address"
  | .invalidMac given => "invalid MAC address: " ++ given

/-- The canonical text of a hardware address; an error names the text as it was given. -/
def normalizeMac (s : String) : Except IdentityError String :=
  match Mac.ofString? s with
  | some m => .ok m.render
  | none => .error (.invalidMac s)

end FleetAgent.Device
