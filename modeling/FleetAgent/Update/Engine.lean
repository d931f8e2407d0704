/-
# The apply engine

The engine of the platform installs a payload in the background.  It is told where the
payload is (`PayloadSpec`), and it reports its state and the outcome in lines of text.  A
status line carries the number of a state and the progress, a completion line the number of
the outcome:

    onStatusUpdate(UPDATE_STATUS_DOWNLOADING (3), 0.25)
    onPayloadApplicationComplete(ErrorCode::kSuccess (0))

Whatever stands before the name of the callback is ignored.
-/
import FleetAgent.Numeral.Single
import FleetAgent.Text.Blank
import FleetAgent.Text.Pieces
import FleetAgent.Text.Utf8

namespace FleetAgent.Update

/-- Where the engine finds a payload: a range of bytes inside a local file, and the
properties to check it against. -/
structure PayloadSpec where
  sourceUri : String
  offset : Nat
  size : Nat
  properties : List String
deriving DecidableEq, Repr, Inhabited

namespace Engine

/-- The states of the engine. -/
inductive State where
  | idle
  | checkingForUpdate
  | updateAvailable
  | downloading
  | verifying
  | finalizing
  | needReboot
  | reportingError
  | attemptingRollback
  | disabled
  | needPermission
deriving DecidableEq, Repr, Inhabited

namespace State

/-- All states in the order of their numbers. -/
def all : List State :=
  [idle, checkingForUpdate, updateAvailable, downloading, verifying, finalizing, needReboot,
    reportingError, attemptingRollback, disabled, needPermission]

/-- The number of a state. -/
def code : State → Nat
  | idle => 0
  | checkingForUpdate => 1
  | updateAvailable => 2
  | downloading => 3
  | verifying => 4
  | finalizing => 5
  | needReboot => 6
  | reportingError => 7
  | attemptingRollback => 8
  | disabled => 9
  | needPermission => 10

/-- The state with a number. -/
def ofCode? (n : Int) : Option State :=
  all.find? fun s => Int.ofNat s.code == n

/-- The name of a state. -/
def name : State → String
  | idle => "IDLE"
  | checkingForUpdate => "CHECKING_FOR_UPDATE"
  | updateAvailable => "UPDATE_AVAILABLE"
  | downloading => "DOWNLOADING"
  | verifying => "VERIFYING"
  | finalizing => "FINALIZING"
  | needReboot => "UPDATED_NEED_REBOOT"
  | reportingError => "REPORTING_ERROR_EVENT"
  | attemptingRollback => "ATTEMPTING_ROLLBACK"
  | disabled => "DISABLED"
  | needPermission => "NEED_PERMISSION_TO_UPDATE"

end State

/-- The number of a successful outcome. -/
def success : Int := 0

/-- The name of an outcome. -/
def outcomeName (code : Int) : String :=
  match code with
  | 0 => "SUCCESS"
  | 1 => "ERROR"
  | 4 => "FILESYSTEM_COPIER_ERROR"
  | 5 => "POST_INSTALL_RUNNER_ERROR"
  | 6 => "PAYLOAD_MISMATCHED_TYPE_ERROR"
  | 7 => "INSTALL_DEVICE_OPEN_ERROR"
  | 8 => "KERNEL_DEVICE_OPEN_ERROR"
  | 9 => "DOWNLOAD_TRANSFER_ERROR"
  | 10 => "PAYLOAD_HASH_MISMATCH_ERROR"
  | 11 => "PAYLOAD_SIZE_MISMATCH_ERROR"
  | 12 => "DOWNLOAD_PAYLOAD_VERIFICATION_ERROR"
  | 15 => "NEW_ROOTFS_VERIFICATION_ERROR"
  | 20 => "DOWNLOAD_STATE_INITIALIZATION_ERROR"
  | 26 => "DOWNLOAD_METADATA_SIGNATURE_MISMATCH"
  | 51 => "PAYLOAD_TIMESTAMP_ERROR"
  | 52 => "UPDATED_BUT_NOT_ACTIVE"
  | _ => "UNKNOWN"

/-- A report of the engine. -/
inductive Event where
  | status (state : State) (progress : Numeral.Single)
  | complete (code : Int)
deriving DecidableEq, Repr

/-- The start of a status report. -/
def statusCall : List Char := "onStatusUpdate(".toList

/-- The start of a completion report. -/
def completeCall : List Char := "onPayloadApplicationComplete(".toList

/-- The number in the first parentheses that follow a space, with the text behind them. -/
def parenthesizedCode? (s : List Char) : Option (Int × List Char) :=
  match Text.cut? [' ', '('] s with
  | some (_, after) =>
    match Text.cutAt? ')' after with
    | some (inside, rest) => (Numeral.int32? (Text.trimChars inside)).map fun n => (n, rest)
    | none => none
  | none => none

/-- The progress in the rest of a status report: what remains when commas in front, blanks,
and parentheses behind are dropped.  Anything that is not a number counts as zero. -/
def progress (rest : List Char) : Numeral.Single :=
  let inner := Text.trimChars (rest.dropWhile (· == ','))
  let value := Text.trimChars (Text.dropWhileEnd (· == ')') inner)
  (Numeral.Single.ofChars? value).getD Numeral.Single.zero

/-- The report in a line. -/
def Event.ofChars? (line : List Char) : Option Event :=
  match Text.cut? statusCall line with
  | some (_, after) =>
    match parenthesizedCode? after with
    | some (n, rest) => (State.ofCode? n).map fun s => .status s (progress rest)
    | none => none
  | none =>
    match Text.cut? completeCall line with
    | some (_, after) => (parenthesizedCode? after).map fun c => .complete c.1
    | none => none

/-- The report in a line. -/
def Event.ofLine? (line : String) : Option Event :=
  Event.ofChars? line.toList

/-- The lines of a byte stream up to the first one that is not UTF-8, which ends it. -/
def readableLines (stream : List UInt8) : List String :=
  ((Text.linesBy 0x0A 0x0D stream).map Text.Utf8.decode?).takeWhile Option.isSome
    |>.filterMap id

/-- The reports in a byte stream, in order. -/
def Event.ofStream (stream : List UInt8) : List Event :=
  (readableLines stream).filterMap Event.ofLine?

/-- The arguments that tell the engine to apply a payload. -/
def applyArguments (spec : PayloadSpec) : List String :=
  ["--update", "--payload=" ++ spec.sourceUri, "--offset=" ++ toString spec.offset,
    "--size=" ++ toString spec.size, "--headers=" ++ Text.join "\n" spec.properties]

/-- The arguments that make the engine report. -/
def followArguments : List String := ["--follow"]

end Engine

end FleetAgent.Update
