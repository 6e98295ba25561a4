import Vigil.Report.Incidents
import Vigil.Report.Status

/-!
# Where diagnoses are recorded

A run may keep an incident log, a status file, both, or neither. Each diagnosis goes into whichever is
kept.
-/

namespace Vigil.Report

structure Ledger where
  log : Option IncidentLog := none
  status : Option StatusTracker := none
  deriving DecidableEq, Repr

namespace Ledger

def track (l : Ledger) (id : ProcessId) (command : String) (now : Instant) (r : WriteResult) : Ledger :=
  { l with status := l.status.map fun t => t.track id command now r }

def record (l : Ledger) (d : Diagnosis) (time : Instant) (r : WriteResult) : Ledger :=
  { log := l.log.map fun g => g.record d time
    status := l.status.map fun t => t.apply d time time r }

def clear (l : Ledger) : Ledger := { l with status := l.status.map (·.remove) }

end Ledger

end Vigil.Report
