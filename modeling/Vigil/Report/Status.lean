import Vigil.Files.Path
import Vigil.Health.State
import Vigil.Report.Instant
import Vigil.Report.Json
import Vigil.SystemError

/-!
# The status file

A snapshot of every tracked workload, written anew whenever one of them changes. A snapshot is written to
a staging file beside the status file, which then takes the status file's place; so a reader finds an old
snapshot or a new one, but no part of one. What the disk makes of a write is given from outside: the
view in memory does not depend on it.
-/

namespace Vigil.Report

structure ProcessStatus where
  id : ProcessId
  command : String
  state : Health
  lastTransition : Instant
  evidence : Option String
  deriving DecidableEq, Repr

def ProcessStatus.json (s : ProcessStatus) : Json :=
  .object [
    ("pid", .number s.id.pid), ("pgid", .number s.id.pgid), ("command", .string s.command),
    ("state", .string s.state.name), ("last_transition", .string s.lastTransition.text),
    ("evidence", (s.evidence.map .string).getD .null)]

/-! ## The view -/

/-- Workloads in the order of their process numbers, one for each number. -/
abbrev StatusView := List ProcessStatus

namespace StatusView

def insert (s : ProcessStatus) : StatusView → StatusView
  | [] => [s]
  | x :: xs =>
    if s.id.pid < x.id.pid then s :: x :: xs
    else if s.id.pid = x.id.pid then s :: xs
    else x :: insert s xs

def get? (v : StatusView) (pid : Int) : Option ProcessStatus := v.find? fun s => s.id.pid = pid

def track (v : StatusView) (id : ProcessId) (command : String) (now : Instant) : StatusView :=
  insert ⟨id, command, .healthy, now, none⟩ v

def apply (v : StatusView) (d : Diagnosis) (time : Instant) : StatusView :=
  v.map fun s =>
    if s.id.pid = d.process.pid then
      { s with state := d.target, lastTransition := time, evidence := some d.evidence }
    else s

end StatusView

structure Snapshot where
  pid : Nat
  lastUpdate : Instant
  processes : StatusView
  deriving DecidableEq, Repr

namespace Snapshot

def json (s : Snapshot) : Json :=
  .object [
    ("pid", .number s.pid), ("last_update", .string s.lastUpdate.text),
    ("processes", .object (s.processes.map fun p => (toString p.id.pid, p.json)))]

def text (s : Snapshot) : String := s.json.pretty 0

end Snapshot

/-! ## The file -/

def stagingPath (path : FilePath) (pid : Nat) : FilePath :=
  path.sibling s!".loopwarden.status.tmp.{pid}"

inductive WriteResult where
  | done
  /-- The staging file could not be written; this is what it holds now. -/
  | notStaged (left : Option String) (e : SystemError)
  | notPublished (e : SystemError)
  deriving DecidableEq, Repr

inductive StatusError where
  | stage (path : FilePath) (source : SystemError)
  | publish (path : FilePath) (source : SystemError)
  deriving DecidableEq, Repr

namespace StatusError

def message : StatusError → String
  | .stage path source => s!"cannot stage status snapshot at {path.text}: {source.message}"
  | .publish path source => s!"cannot publish status snapshot to {path.text}: {source.message}"

def source : StatusError → SystemError
  | .stage _ source => source
  | .publish _ source => source

end StatusError

def WriteResult.error? (path : FilePath) (pid : Nat) : WriteResult → Option StatusError
  | .done => none
  | .notStaged _ e => some (.stage (stagingPath path pid) e)
  | .notPublished e => some (.publish path e)

structure StatusFile where
  published : Option String := none
  staged : Option String := none
  deriving DecidableEq, Repr

namespace StatusFile

def write (f : StatusFile) (text : String) : WriteResult → StatusFile
  | .done => { published := some text, staged := none }
  | .notStaged left _ => { f with staged := left }
  | .notPublished _ => { f with staged := some text }

def remove (f : StatusFile) : StatusFile := { f with published := none }

end StatusFile

/-! ## Keeping the file up to date -/

structure StatusTracker where
  pid : Nat
  view : StatusView := []
  file : StatusFile := {}
  deriving DecidableEq, Repr

namespace StatusTracker

def update (t : StatusTracker) (now : Instant) (r : WriteResult) : StatusTracker :=
  { t with file := t.file.write (Snapshot.text ⟨t.pid, now, t.view⟩) r }

def track (t : StatusTracker) (id : ProcessId) (command : String) (now : Instant) (r : WriteResult) :
    StatusTracker :=
  { t with view := t.view.track id command now }.update now r

/-- Takes a diagnosis over. One of a workload that is not shown changes nothing. -/
def apply (t : StatusTracker) (d : Diagnosis) (time now : Instant) (r : WriteResult) : StatusTracker :=
  match t.view.get? d.process.pid with
  | none => t
  | some _ => { t with view := t.view.apply d time }.update now r

def remove (t : StatusTracker) : StatusTracker := { t with file := t.file.remove }

end StatusTracker

end Vigil.Report
