/-
# The file tree of a device

The folders and files that every device has, as far as commands for it refer to them.
-/
import FleetAgent.Storage.Fault
import FleetAgent.Text.Pieces

namespace FleetAgent.Machine.Tree

/-- The folders. -/
def folders : List String :=
  [".", "/", "/bin", "/boot", "/dev", "/etc", "/home", "/lib", "/media", "/mnt", "/opt", "/proc",
    "/root", "/run", "/sbin", "/srv", "/sys", "/tmp", "/usr", "/usr/bin", "/usr/lib",
    "/usr/local", "/usr/sbin", "/usr/share", "/var", "/var/lib", "/var/log", "/var/tmp"]

/-- The files that are no programs. -/
def files : List String :=
  ["/dev/null", "/etc/group", "/etc/hostname", "/etc/hosts", "/etc/passwd"]

/-- A path without slashes at its end. -/
def trimSlashes (path : String) : String :=
  let s := (path.toList.reverse.dropWhile (· == '/')).reverse
  if s.isEmpty then path else String.ofList s

/-- Whether a path leads to a folder. -/
def isFolder (path : String) : Bool :=
  folders.contains (trimSlashes path) || (path.toList.all (· == '/') && path != "")

/-- Whether a path leads to a file that is no program. -/
def isFile (path : String) : Bool :=
  files.contains path

/-- Why a folder cannot be entered. -/
def folderFault? (path : String) : Option Storage.Fault :=
  if isFolder path then none
  else if isFile path then some .notADirectory
  else some .notFound

/-- The path of names, the innermost first. -/
def pathOf (names : List String) : String :=
  if names.isEmpty then "/" else "/" ++ Text.join "/" names.reverse

/-- The names of the folder that steps lead to from a folder, the innermost first in both.  All
folders on the way have to be there. -/
def follow (names : List String) : List String → Except Storage.Fault (List String)
  | [] => .ok names
  | "" :: steps | "." :: steps => follow names steps
  | ".." :: steps => follow names.tail steps
  | name :: steps =>
    match folderFault? (pathOf (name :: names)) with
    | some f => .error f
    | none => follow (name :: names) steps

/-- The plain path of a folder: it has no steps that lead back or nowhere. -/
def enter (path : String) : Except Storage.Fault String :=
  match path.toList with
  | '/' :: s => (follow [] ((Text.splitAt (· == '/') s).map String.ofList)).map pathOf
  | _ => match folderFault? path with
    | some f => .error f
    | none => .ok path

/-- The folders in which programs are looked for. -/
def programFolders : List String := ["/bin/", "/usr/bin/"]

/-- The name of the program at a path in one of these folders, or of a program that is called
by its name alone. -/
def baseName? (path : String) : Option String :=
  if path.toList.contains '/' then
    programFolders.findSome? fun f =>
      if f.toList.isPrefixOf path.toList then
        some (String.ofList (path.toList.drop f.length))
      else none
  else some path

/-- Why a path cannot be run. -/
def programFault (path : String) : Storage.Fault :=
  if isFile path || isFolder path && path.toList.contains '/' then .permissionDenied
  else .notFound

end FleetAgent.Machine.Tree
