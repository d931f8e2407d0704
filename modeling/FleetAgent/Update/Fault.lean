/-
# Failed updates

Why an update was not found, not downloaded or not applied.
-/
import FleetAgent.Archive.Failure
import FleetAgent.Auth.Token

namespace FleetAgent.Update

/-- Why an update failed. -/
inductive Fault where
  | payloadNotFound
  | archiveCorrupt (c : Archive.Corruption)
  /-- A check of the archive reader failed that its length checks rule out. -/
  | archiveFault (f : Archive.Fault)
  | checksumMismatch (expected actual : String)
  | missingMetadata
  | token (e : Auth.TokenError)
  | connection (f : Http.Fault)
  | engine (text : String)
  | io (f : Storage.Fault)
deriving DecidableEq, Repr, Inhabited

/-- The fault that a failure of the archive reader is. -/
def Fault.ofArchive : Archive.Failure → Fault
  | .corrupt c => .archiveCorrupt c
  | .unseekable => .io .invalidInput
  | .fault f => .archiveFault f

/-- The text of a fault, if it has one. -/
def Fault.message? : Fault → Option String
  | payloadNotFound => some "payload entry not found in update archive"
  | archiveCorrupt c => some ("update archive is corrupt: " ++ c.message)
  | archiveFault _ => none
  | checksumMismatch expected actual =>
    some ("package checksum mismatch (expected " ++ expected ++ ", got " ++ actual ++ ")")
  | missingMetadata => some "server reported missing device metadata"
  | token e => e.message?
  | connection f => f.message?
  | engine text => some ("apply engine error: " ++ text)
  | io _ => none

end FleetAgent.Update
