/-
# The payload in an update package

An update package is a ZIP archive that holds the payload as a stored entry and, optionally,
a text of properties.  The engine reads the payload where it stands in the archive, so only
its place is looked for: the entries are walked from the start of the archive, each one
beginning where the previous one stops (`walk`).  Of several entries with one name the last
counts.

The properties are the lines of their entry, which may be stored or deflated and must not
have more than 65536 bytes.
-/
import FleetAgent.Archive.Entry
import FleetAgent.Deflate.Inflate
import FleetAgent.Update.Engine
import FleetAgent.Update.Fault

namespace FleetAgent.Update.Payload

open FleetAgent.Archive

/-- The name of the entry that is the payload. -/
def payloadName : String := "payload.bin"

/-- The name of the entry that holds the properties. -/
def propertiesName : String := "payload_properties.txt"

/-- The properties of a payload whose package gives none. -/
def defaultProperties : List String := ["SWITCH_SLOT_ON_REBOOT=1"]

/-- The greatest size of the properties. -/
def maxProperties : Nat := 65536

/-- The greatest size of inflated properties that is still looked at: whole windows of 32768
bytes, the least number of them that holds more than `maxProperties` bytes. -/
def inflateLimit : Nat := 98304

/-- The bytes of deflated properties. -/
def inflated (name : String) (raw : List UInt8) : Except Failure (List UInt8) :=
  let (stop, out) := Deflate.inflate inflateLimit raw
  match stop with
  | .invalid => .error (.corrupt (.cannotInflate name))
  | .truncated =>
    -- what has come out already counts, although the stream breaks off
    if maxProperties < out.length then .error (.corrupt (.tooLarge name))
    else .error (.corrupt (.cannotInflate name))
  | .finished | .full =>
    if maxProperties < out.length then .error (.corrupt (.tooLarge name)) else .ok out

/-- The bytes of the properties in an entry. -/
def propertyBytes (archive : List UInt8) (e : Entry) : Except Failure (List UInt8) := do
  if maxProperties < e.storedSize then .error (.corrupt (.tooLarge e.name))
  else
    let raw ← read archive e.dataOffset e.storedSize maxProperties
    if e.method = storedMethod then return raw
    else if e.method = deflatedMethod then inflated e.name raw
    else .error (.corrupt (.unsupportedMethod e.method e.name))

/-- The lines of a property text. -/
def propertyLines (bytes : List UInt8) : List String :=
  (Text.lines (Text.Utf8.decodeLossyChars bytes)).map String.ofList

/-- What a walk has found: the offset and the size of the payload, and the properties. -/
structure Found where
  payload : Option (Nat × Nat)
  properties : Option (List String)
deriving DecidableEq, Repr, Inhabited

/-- What has been found after an entry. -/
def Found.visit (found : Found) (archive : List UInt8) (e : Entry) : Except Failure Found := do
  if e.name = payloadName then
    -- the engine reads the payload where it stands, so it cannot be deflated
    if e.method = storedMethod then
      return { found with payload := some (e.dataOffset, e.storedSize) }
    else .error (.corrupt .compressedPayload)
  else if e.name = propertiesName then
    let bytes ← propertyBytes archive e
    return { found with properties := some (propertyLines bytes) }
  else return found

/-- Whether an entry begins at a position.  An archive may be empty, but it must not begin
with anything else than an entry or its end record. -/
def entryBegins (archive : List UInt8) (pos : Nat) : Except Failure Bool := do
  if archive.length < (← add pos 4) then return false
  else
    let signature ← read32 archive pos
    if signature = entrySignature then return true
    else if pos = 0 ∧ signature ≠ endSignature then .error (.corrupt .notArchive)
    else return false

/-- Visits the entry at a position; gives the position behind it and what has been found. -/
def step (archive : List UInt8) (directory : Except Failure Directory) (pos : Nat)
    (found : Found) : Except Failure (Nat × Found) := do
  let e ← Entry.ofArchive archive directory pos
  let dataStop := e.dataOffset + e.storedSize
  if archive.length < dataStop then .error (.corrupt (.pastEnd e.name))
  else
    let found ← found.visit archive e
    return (← e.stop archive dataStop, found)

/-- Visits the entries from a position on. -/
def walk (archive : List UInt8) (directory : Except Failure Directory) :
    Nat → Nat → Found → Except Failure Found
  | 0, _, _ => .error (.fault .endless)
  | fuel + 1, pos, found => do
    if ← entryBegins archive pos then
      let (next, found) ← step archive directory pos found
      walk archive directory fuel next found
    else return found

/-- What the entries of an archive hold. -/
def find (archive : List UInt8) : Except Failure Found :=
  walk archive (Directory.ofArchive archive) (archive.length + 1) 0 ⟨none, none⟩

/-- The place and the properties of the payload in the archive at an absolute path. -/
def specOf (path : String) (archive : List UInt8) : Except Fault PayloadSpec :=
  match find archive with
  | .error e => .error (Fault.ofArchive e)
  | .ok found =>
    match found.payload with
    | none => .error .payloadNotFound
    | some (offset, size) =>
      .ok ⟨"file://" ++ path, offset, size, found.properties.getD defaultProperties⟩

end FleetAgent.Update.Payload
