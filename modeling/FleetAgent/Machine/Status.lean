/-
# How programs end

A program exits with a code or is killed by a signal.
-/
namespace FleetAgent.Machine

/-- How a program ended. -/
inductive Status where
  | exited (code : Nat)
  | killed (signal : Nat)
deriving DecidableEq, Repr, Inhabited

namespace Status

/-- Whether a program ended well. -/
def isSuccess (s : Status) : Bool :=
  s == exited 0

/-- The names of the signals, by their numbers from one on. -/
def signalNames : List String :=
  ["HUP", "INT", "QUIT", "ILL", "TRAP", "ABRT", "BUS", "FPE", "KILL", "USR1", "SEGV", "USR2",
    "PIPE", "ALRM", "TERM", "STKFLT", "CHLD", "CONT", "STOP", "TSTP", "TTIN", "TTOU", "URG",
    "XCPU", "XFSZ", "VTALRM", "PROF", "WINCH", "IO", "PWR", "SYS"]

/-- The name of a signal, if it has one. -/
def signalName? (n : Nat) : Option String :=
  if n = 0 then none else signalNames[n - 1]?

/-- The number of the signal with a name. -/
def signalNumber? (name : String) : Option Nat :=
  (signalNames.findIdx? (· == name)).map (· + 1)

/-- The signal that no program survives. -/
def kill : Nat := 9

/-- The text of a status. -/
def text : Status → String
  | exited code => "exit status: " ++ toString code
  | killed signal =>
    "signal: " ++ toString signal ++ match signalName? signal with
      | some name => " (SIG" ++ name ++ ")"
      | none => ""

end Status

end FleetAgent.Machine
