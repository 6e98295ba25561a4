import Vigil.Evidence.Tracked
import Vigil.Health.Assessment

/-!
# The monitor of one workload

The evidence of a workload and its assessment together. Lines and readings go into the evidence; a tick
judges what is there; a diagnosis changes the state in both places at once.
-/

namespace Vigil

structure Monitor where
  tracked : Tracked
  assessor : Assessor
  deriving DecidableEq, Repr

namespace Monitor

def start (s : Settings) (id : ProcessId) (now : Nat) : Monitor :=
  { tracked := .start s id now, assessor := { process := id } }

def state (m : Monitor) : Health := m.assessor.state

def recordSample (m : Monitor) (time : Nat) (cpuPercent : Float) (residentBytes : Nat) : Monitor :=
  { m with tracked := m.tracked.recordSample time cpuPercent residentBytes }

def recordLine (m : Monitor) (time : Nat) (line : OutputLine) : Monitor :=
  { m with tracked := m.tracked.recordLine time line }

def observation (s : Settings) (tracked : Tracked) (now : Nat) (liveness : Liveness) : Observation :=
  { time := now
    repetition := .detect s.logs tracked.logWindow
    resources := .evaluate s.cpu s.memory tracked.cpuSamples tracked.memSamples
    liveness
    lastLine := tracked.lastLine }

def conclude (tracked : Tracked) (now : Nat) :
    Assessor × Option Diagnosis → Monitor × Option Diagnosis
  | (assessor, none) => ({ tracked, assessor }, none)
  | (assessor, some d) => ({ tracked := tracked.apply d now, assessor }, some d)

/-- One tick: old lines are dropped, and what is left is judged. -/
def tick (s : Settings) (m : Monitor) (now : Nat) (liveness : Liveness) :
    Except SpanOverflow (Monitor × Option Diagnosis) :=
  let tracked := m.tracked.pruneLog now
  (m.assessor.observe s (observation s tracked now liveness)).map (conclude tracked now)

def reset (m : Monitor) (now : Nat) : Monitor × Option Diagnosis :=
  conclude m.tracked.clearLog now m.assessor.reset

def abandon (m : Monitor) (reason : String) (now : Nat) : Monitor × Option Diagnosis :=
  conclude m.tracked now (m.assessor.abandon reason)

end Monitor

end Vigil
