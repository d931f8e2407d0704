/-
# Failures of file operations

The kinds of failure that operations on files and programs report.
-/
namespace FleetAgent.Storage

/-- Why an operation on a file failed. -/
inductive Fault where
  | notFound
  | permissionDenied
  | alreadyExists
  | isADirectory
  | notADirectory
  | invalidData
  | invalidInput
deriving DecidableEq, Repr, Inhabited

/-- The name of a kind of failure. -/
def Fault.name : Fault → String
  | notFound => "NotFound"
  | permissionDenied => "PermissionDenied"
  | alreadyExists => "AlreadyExists"
  | isADirectory => "IsADirectory"
  | notADirectory => "NotADirectory"
  | invalidData => "InvalidData"
  | invalidInput => "InvalidInput"

end FleetAgent.Storage
