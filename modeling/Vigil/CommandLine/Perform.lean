import Vigil.CommandLine.Command
import Vigil.CommandLine.Disk
import Vigil.Rehearsal.Workload
import Vigil.Rehearsal.World
import Vigil.Report.Ledger
import Vigil.Settings.Listing
import Vigil.Settings.Load
import Vigil.Watch.Attendance

/-!
# Carrying out commands

What a command line says, which exit code it ends with, and how it leaves the disk. A workload is
rehearsed: how it behaves is known in advance, and the watch over it runs in its own time.
-/

namespace Vigil.CommandLine

open Report (Instant Ledger StatusTracker WriteResult)

structure Reply where
  code : Int
  stdout : String := ""
  stderr : String := ""
  deriving DecidableEq, Repr

namespace Reply

def failureCode : Int := 1

def misuseCode : Int := 2

def failure (message : String) : Reply := { code := failureCode, stderr := s!"error: {message}\n" }

end Reply

structure Surroundings where
  disk : Disk
  now : Instant
  ownPid : Nat
  workloadPid : Int
  behaviour : Rehearsal.Behaviour

/-! ## Settings and incidents -/

def checkConfig (d : Disk) (path : String) : Reply :=
  match Settings.load path (d.readText path) with
  | .ok s => { code := 0, stdout := s!"{path}: ok\n{s.listing}\n" }
  | .error e => .failure e.message

def listIncidents (d : Disk) (db : String) (limit : Nat) : Disk × Reply :=
  match d.openLog db with
  | .ok o =>
    (o.disk, { code := 0, stdout := String.join ((o.log.newest limit).map fun i => i.line ++ "\n") })
  | .error e => (d, .failure s!"failed to read incident log {db}: {e.message}")

/-! ## Running a workload -/

structure Prepared where
  settings : Settings
  disk : Disk
  ledger : Ledger
  db : Option Location
  statusFile : Option Location
  writes : WriteResult

def prepareLog (d : Disk) : Option String → Except Reply (Option Disk.OpenLog)
  | none => .ok none
  | some db =>
    match d.openLog db with
    | .ok o => .ok (some o)
    | .error e => .error (.failure s!"failed to open incident log: {e.message}")

def fileLocation? (d : Disk) (path : String) : Option Location :=
  match d.find path with
  | .file here _ | .vacant here => some here
  | _ => none

def prepare (s : Surroundings) (o : RunOptions) : Except Reply Prepared :=
  match Settings.load o.config (s.disk.readText o.config) with
  | .error e => .error (.failure e.message)
  | .ok settings =>
    let settings := if o.observe then { settings with action.mode := .observe } else settings
    (prepareLog s.disk o.db).map fun opened =>
      let disk := (opened.map (·.disk)).getD s.disk
      { settings
        disk
        ledger :=
          { log := opened.map (·.log), status := o.statusFile.map fun _ => { pid := s.ownPid } }
        db := opened.bind (·.kept)
        statusFile := o.statusFile.bind (fileLocation? disk)
        writes := (o.statusFile.map disk.writeResult).getD .done }

/-- A disk with what the run has recorded. A status file that could not be written changes nothing. -/
def Prepared.store (p : Prepared) (d : Disk) (l : Ledger) : Disk :=
  let d := match p.db, l.log with
    | some db, some log => d.put db (.incidents log)
    | _, _ => d
  match p.statusFile, p.writes, l.status with
  | some here, .done, some t =>
    match t.file.published with
    | some text => d.put here (.bytes text.toUTF8.toList)
    | none => d.erase here
  | _, _, _ => d

def stepLimit : Nat := 500000

def rehearse (settings : Settings) (workload : List String) (program : Rehearsal.Program) :
    Rehearsal.World :=
  .playFor stepLimit {
    settings
    programs := [(workload.headD "", .ok program)]
    orders := [(0, .track workload), (0, .wait program.process.pid)]
    passthrough := true
    echoBudget := none
    faults := []
    deaf := false }

def outcomeOf (w : Rehearsal.World) : Option WatchOutcome :=
  match w.answers[1]? with
  | some (_, SupervisorAnswer.outcome o) => o
  | _ => none

/-- The diagnoses of a rehearsal as the run records them: all that were sent, in the order in which they
were made. -/
def recordedOf (w : Rehearsal.World) : List TimedDiagnosis :=
  ((w.around.diagnoses.foldl Attendance.deliver {}).leave.collect).recorded

def runWorkload (s : Surroundings) (o : RunOptions) : Disk × Reply :=
  match prepare s o with
  | .error reply => (s.disk, reply)
  | .ok p =>
    match Rehearsal.Workload.launch s.behaviour p.disk s.workloadPid o.workload with
    | .error e => (p.disk, .failure e.message)
    | .ok launched =>
      let w := rehearse p.settings o.workload launched.program
      let id : ProcessId := ⟨s.workloadPid, s.workloadPid⟩
      let ledger := p.ledger.track id (" ".intercalate o.workload) s.now p.writes
      let ledger := (recordedOf w).foldl (fun l (t, d) => l.record d (s.now.after t) p.writes) ledger
      let code := runCode (outcomeOf w)
      let ledger := if code = 0 then ledger.clear else ledger
      (p.store launched.disk ledger,
        { code
          stdout := Utf8.decodeLossy (w.around.echo.bytes false)
          stderr := Utf8.decodeLossy (w.around.echo.bytes true) })

/-! ## Command lines -/

def versionText : String := "loopwarden 0.1.0\n"

def carryOut (s : Surroundings) : Command → Disk × Reply
  | .run o => runWorkload s o
  | .checkConfig path => (s.disk, checkConfig s.disk path)
  | .incidents db limit => listIncidents s.disk db limit

def perform (s : Surroundings) (words : List String) : Disk × Reply :=
  match Command.ofWords words with
  | .ok c => carryOut s c
  | .error .help => (s.disk, { code := 0 })
  | .error .version => (s.disk, { code := 0, stdout := versionText })
  | .error .misuse => (s.disk, { code := Reply.misuseCode })

end Vigil.CommandLine
