/-
# Failures of reading an archive

Besides the ways in which an archive can be corrupt there are faults: an addition beyond 64
bits, an access outside a buffer, a buffer that is too large, a loop without end.  Every step
of the reader checks for them, and the length checks of the reader rule them out.
-/
namespace FleetAgent.Archive

/-- The ways in which an archive can be corrupt. -/
inductive Corruption where
  | notArchive
  | unexpectedEnd
  | pastEnd (entry : String)
  | compressedPayload
  | tooLarge (entry : String)
  | cannotInflate (entry : String)
  | unsupportedMethod (method : Nat) (entry : String)
  | lacksSizes (entry : String)
  | notInDirectory (entry : String)
  | truncatedDirectory
  | tooShort
  | noEndRecord
  | noLocator
  | noWideEndRecord
  | directoryPastEnd
deriving DecidableEq, Repr, Inhabited

/-- The text of a corruption; sizes are those of a properties file. -/
def Corruption.message : Corruption → String
  | notArchive => "not a ZIP archive"
  | unexpectedEnd => "unexpected end of archive"
  | pastEnd entry => "entry " ++ entry ++ " extends past end of archive"
  | compressedPayload => "payload.bin must be stored uncompressed"
  | tooLarge entry => entry ++ " exceeds 65536 bytes"
  | cannotInflate entry => "cannot inflate " ++ entry
  | unsupportedMethod method entry =>
    "unsupported compression method " ++ toString method ++ " for " ++ entry
  | lacksSizes entry => "entry " ++ entry ++ " lacks ZIP64 sizes"
  | notInDirectory entry => "entry " ++ entry ++ " missing from central directory"
  | truncatedDirectory => "truncated central directory"
  | tooShort => "archive too short"
  | noEndRecord => "end of central directory not found"
  | noLocator => "ZIP64 locator not found"
  | noWideEndRecord => "ZIP64 end of central directory not found"
  | directoryPastEnd => "central directory extends past end of archive"

/-- What the checks of the reader rule out. -/
inductive Fault where
  /-- A sum that does not fit 64 bits. -/
  | overflow
  /-- An access outside a buffer. -/
  | outOfBounds
  /-- A buffer longer than its bound. -/
  | allocation
  /-- A loop that does not end. -/
  | endless
deriving DecidableEq, Repr, Inhabited

/-- Why an archive cannot be read. -/
inductive Failure where
  | corrupt (c : Corruption)
  /-- A position beyond the greatest file offset. -/
  | unseekable
  | fault (f : Fault)
deriving DecidableEq, Repr, Inhabited

end FleetAgent.Archive
