import Vigil.Files.Path
import Vigil.Files.Text
import Vigil.Report.Incidents

/-!
# The disk of a command

The files and folders that a command can come across. Each stands at a location, which is the list of
names on the way to it from the root. A path is looked up name by name: every name but the last has to be
a folder, and two points lead back to the folder above.
-/

namespace Vigil

abbrev Location := List String

inductive Content where
  | bytes (bytes : List UInt8)
  | incidents (log : Report.IncidentLog)
  | void
  deriving DecidableEq, Repr

structure Disk where
  home : Location := []
  files : List (Location × Content) := []
  folders : List Location := []
  runnable : List Location := []
  deriving DecidableEq, Repr

/-- What stands at a path. -/
inductive Place where
  | folder (here : Location)
  | file (here : Location) (c : Content)
  | vacant (here : Location)
  | refused (e : SystemError)
  deriving DecidableEq, Repr

namespace Disk

def nameLimit : Nat := 255

def pathLimit : Nat := 4095

def isNameTooLong (name : String) : Bool := nameLimit < name.utf8ByteSize

def get? (d : Disk) (l : Location) : Option Content := d.files.lookup l

def erase (d : Disk) (l : Location) : Disk :=
  { d with
    files := d.files.filter fun e => e.1 ≠ l
    runnable := d.runnable.filter fun r => r ≠ l }

def put (d : Disk) (l : Location) (c : Content) : Disk :=
  { d with files := d.files.filter (fun e => e.1 ≠ l) ++ [(l, c)] }

def isFolder (d : Disk) (l : Location) : Bool := l.isPrefixOf d.home || d.folders.contains l

def walk (d : Disk) (here : Location) : List String → Place
  | [] => .folder here
  | name :: rest =>
    if name = ".." then walk d here.dropLast rest
    else if isNameTooLong name then .refused .nameTooLong
    else
      let next := here ++ [name]
      if d.isFolder next then walk d next rest
      else
        match d.get? next, rest with
        | some c, [] => .file next c
        | some _, _ :: _ => .refused .notDirectory
        | none, [] => .vacant next
        | none, _ :: _ => .refused .notFound

def start (d : Disk) (p : FilePath) : Location := if p.absolute then [] else d.home

def find (d : Disk) (path : String) : Place :=
  let p := FilePath.ofText path
  if path = "" then .refused .notFound
  else if pathLimit < path.utf8ByteSize then .refused .nameTooLong
  else
    match d.walk (d.start p) p.parts, p.asFolder with
    | .file .., true => .refused .notDirectory
    | .vacant _, true => .refused .notFound
    | place, _ => place

def readText (d : Disk) (path : String) : FileText :=
  match d.find path with
  | .folder _ => .isFolder
  | .file _ (.bytes bs) => .ofBytes bs
  | .file _ (.incidents _) => .error .notText
  | .file _ .void => .ok ""
  | .vacant _ => .missing
  | .refused e => .error (.refused e)

end Disk

end Vigil
