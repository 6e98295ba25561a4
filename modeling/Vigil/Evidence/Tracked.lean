import Vigil.Evidence.Repetition
import Vigil.Evidence.Trend
import Vigil.Health.State
import Vigil.Output.Redaction

/-!
# A tracked workload

The bounded evidence of one workload: its readings, the fingerprints of its recent lines, the last line
itself in redacted form, and the state it was last diagnosed with.
-/

namespace Vigil

/-- An output line as evidence: what it is compared by, and what of it may be shown. -/
structure OutputLine where
  fingerprint : Fingerprint String
  redacted : String
  deriving DecidableEq, Repr

def OutputLine.of (text : String) : OutputLine :=
  { fingerprint := .ofLine text
    redacted := Redaction.redact (String.ofList (trimLineEnd text.toList)) }

structure Tracked where
  id : ProcessId
  startedAt : Nat
  cpuSamples : Ring Float
  memSamples : Ring Nat
  logWindow : Ring (Fingerprint String)
  lastLine : Option String
  state : Health
  lastTransition : Nat
  deriving DecidableEq, Repr

namespace Tracked

def lineBytes : Nat := 56

def hasRoom (s : Settings) : Bool :=
  Ring.hasRoom s.sampling.historyCapacity Ring.numberBytes && Ring.hasRoom s.logs.windowLines lineBytes

def start (s : Settings) (id : ProcessId) (now : Nat) : Tracked :=
  { id
    startedAt := now
    cpuSamples := .empty s.sampling.historyCapacity none
    memSamples := .empty s.sampling.historyCapacity none
    logWindow := .empty s.logs.windowLines (some s.logs.window)
    lastLine := none
    state := .healthy
    lastTransition := now }

/-- Records a reading in both series, or in neither if it comes out of order. -/
def recordSample (t : Tracked) (time : Nat) (cpuPercent : Float) (residentBytes : Nat) : Tracked :=
  if t.cpuSamples.accepts time then
    { t with
      cpuSamples := t.cpuSamples.push time cpuPercent
      memSamples := t.memSamples.push time residentBytes }
  else t

def recordLine (t : Tracked) (time : Nat) (line : OutputLine) : Tracked :=
  if t.logWindow.accepts time then
    { t with logWindow := t.logWindow.push time line.fingerprint, lastLine := some line.redacted }
  else t

def pruneLog (t : Tracked) (now : Nat) : Tracked := { t with logWindow := t.logWindow.prune now }

def clearLog (t : Tracked) : Tracked := { t with logWindow := t.logWindow.clear }

def apply (t : Tracked) (d : Diagnosis) (now : Nat) : Tracked :=
  { t with state := d.target, lastTransition := now }

end Tracked

end Vigil
