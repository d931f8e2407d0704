/-
# Launching programs on a device

A program can be launched when it is one of those that the device has, in a folder that
exists.  Other files and folders are no programs, and everything else is not there.
-/
import FleetAgent.Machine.Shell

namespace FleetAgent.Machine.Standard

/-- Whether a text has a null character, which no path and no argument can have. -/
def hasNull (s : String) : Bool :=
  s.toList.contains '\x00'

/-- Launches a program. -/
def launch : Launcher := fun i =>
  if hasNull i.program || hasNull i.workingDir || i.args.any hasNull then .error .invalidInput
  else match Tree.enter i.workingDir with
    | .error f => .error f
    | .ok folder =>
      match Shell.find? i.program with
      | some program => .ok (program { i with workingDir := folder })
      | none => .error (Tree.programFault i.program)

end FleetAgent.Machine.Standard
