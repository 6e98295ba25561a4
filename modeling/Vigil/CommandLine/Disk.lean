import Vigil.Files.Disk
import Vigil.Report.LogAddress
import Vigil.Report.Status

/-!
# Incident logs and status files on a disk

How an incident log is found and opened, and what the disk makes of a status file.
-/

namespace Vigil

open Report (IncidentLog LogAddress LogError WriteResult)

namespace Disk

def logPathLimit : Nat := 504

/-- Goes along names as a log is looked for: two points take back the name before them, whatever stands
there, and no name may stand behind a file. -/
def logLocation? (d : Disk) (here : Location) : List String → Option Location
  | [] => some here
  | name :: rest =>
    if name = ".." then logLocation? d here.dropLast rest
    else if isNameTooLong name || (d.get? here).isSome then none
    else logLocation? d (here ++ [name]) rest

def sealedFolders : List Location := [["proc"], ["sys"]]

def isSealed (l : Location) : Bool := sealedFolders.any (·.isPrefixOf l)

def isLogPathTooLong (l : Location) : Bool :=
  logPathLimit < (l.map fun name => name.utf8ByteSize + 1).foldr (· + ·) 0

structure OpenLog where
  disk : Disk
  log : IncidentLog
  kept : Option Location
  deriving DecidableEq, Repr

def beginLog (d : Disk) (l : Location) : OpenLog := ⟨d.put l (.incidents {}), {}, some l⟩

/-- Opens the log at a location, or begins one there. A file of one byte at most is a log that is not
begun yet. -/
def openLogAt (d : Disk) (text : String) (l : Location) (access : Report.LogAccess) :
    Except LogError OpenLog :=
  match d.get? l with
  | some (.incidents log) => .ok ⟨d, log, if access = .read then none else some l⟩
  | some (.bytes (_ :: _ :: _)) => .error .notADatabase
  | some (.bytes _) => if access = .read then .error .readOnly else .ok (d.beginLog l)
  | some .void => .error .deviceFailure
  | none =>
    if access = .create && l ≠ [] && !d.isFolder l && d.isFolder l.dropLast && !isSealed l &&
        !isLogPathTooLong l then
      .ok (d.beginLog l)
    else .error (.cannotOpen text)

def openLog (d : Disk) (text : String) : Except LogError OpenLog := do
  let address ← LogAddress.ofText text
  match address.path with
  | none => return ⟨d, {}, none⟩
  | some path =>
    let p := FilePath.ofText path
    match d.logLocation? (d.start p) p.parts with
    | some l => d.openLogAt text l address.access
    | none => throw (.cannotOpen text)

def writeResult (d : Disk) (path : String) : WriteResult :=
  match d.find path with
  | .file .. | .vacant _ => .done
  | .folder _ => .notPublished .isDirectory
  | .refused e => .notStaged none e

end Disk

end Vigil
