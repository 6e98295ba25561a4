import Vigil.Health.State
import Vigil.Report.Instant

/-!
# The incident log

Every diagnosis that was recorded, under ascending numbers that are never given twice.
-/

namespace Vigil.Report

structure Incident where
  id : Nat
  process : ProcessId
  source : Health
  target : Health
  evidence : String
  created : String
  deriving DecidableEq, Repr

def Incident.line (i : Incident) : String :=
  s!"#{i.id}  {i.created}  {i.process.text}  {i.source.name} -> {i.target.name}  {i.evidence}"

structure IncidentLog where
  incidents : List Incident := []
  deriving DecidableEq, Repr

namespace IncidentLog

def lastId (l : IncidentLog) : Nat := (l.incidents.head?.map (·.id)).getD 0

def record (l : IncidentLog) (d : Diagnosis) (time : Instant) : IncidentLog :=
  { incidents :=
      ⟨l.lastId + 1, d.process, d.source, d.target, d.evidence, time.milliText⟩ :: l.incidents }

def newest (l : IncidentLog) (limit : Nat) : List Incident := l.incidents.take limit

end IncidentLog

inductive LogError where
  | cannotOpen (path : String)
  | notADatabase
  | readOnly
  | deviceFailure
  | invalidAuthority (host : String)
  | unknownStore (name : String)
  | unknownMode (kind value : String)
  deriving DecidableEq, Repr

def LogError.message : LogError → String
  | .cannotOpen path => s!"unable to open database file: {path}"
  | .notADatabase => "file is not a database"
  | .readOnly => "attempt to write a readonly database"
  | .deviceFailure => "disk I/O error"
  | .invalidAuthority host => s!"invalid uri authority: {host}"
  | .unknownStore name => s!"no such vfs: {name}"
  | .unknownMode kind value => s!"no such {kind} mode: {value}"

end Vigil.Report
