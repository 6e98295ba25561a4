import Vigil.Health.Monitor
import Vigil.Process.Meter
import Vigil.Reap.Group

/-!
# The watch over one workload

A watch serves one event after another: lines and readings that come in, the end of the process, ticks,
and commands. A diagnosis that calls for it, or a command to shut down, starts a reap; until that is done
the watch serves nothing but the reap's turns. It ends with the first terminal diagnosis. What the watch
does to its surroundings is the list of effects that each event yields.
-/

namespace Vigil

inductive WatchEvent where
  | line (time : Nat) (line : OutputLine)
  | reading (r : Reading)
  | sampleFailed (e : SampleError)
  /-- Waiting for the tracked process came to an end. There is no code if a signal killed it or the wait
  failed. -/
  | exited (code : Option Int)
  | tick (now : Nat) (group : GroupProbe)
  | reset (now : Nat)
  | shutdown (immediate : Bool)
  | commandsEnded
  | turn (now : Nat) (group : GroupProbe) (escalated : Bool)
  | drained

def WatchEvent.isFeed : WatchEvent → Bool
  | .reset .. | .shutdown .. | .commandsEnded | .turn .. => false
  | _ => true

inductive WatchEffect where
  | diagnosed (time : Nat) (d : Diagnosis)
  | signalled (pgid : Int) (s : Signal)
  | paused (ms : Nat)
  deriving DecidableEq, Repr

inductive WatchPhase where
  | serving
  | reaping (mode : ReapMode) (stage : Reap.Stage)
  | draining
  | finished
  deriving DecidableEq, Repr

namespace WatchPhase

def isReaping : WatchPhase → Bool
  | .reaping .. => true
  | _ => false

def isOver : WatchPhase → Bool
  | .draining | .finished => true
  | _ => false

end WatchPhase

structure WatchOutcome where
  id : ProcessId
  finalState : Health
  /-- Exit code of the tracked process; none if a signal killed it or it was never seen to exit. -/
  exitCode : Option Int
  terminated : Bool
  deriving DecidableEq, Repr

structure Watch where
  id : ProcessId
  monitor : Monitor
  published : Health := .healthy
  parentGone : Bool := false
  exit : Option (Option Int) := none
  terminated : Bool := false
  commandsOpen : Bool := true
  phase : WatchPhase := .serving
  deriving DecidableEq, Repr

namespace Watch

def drainTime : Nat := 2000

def canStart (s : Settings) : Bool := Tracked.hasRoom s && 0 < s.assessment.tickMs

def start (s : Settings) (id : ProcessId) (now : Nat) : Watch :=
  { id, monitor := .start s id now }

def state (w : Watch) : Health := w.monitor.state

def outcome (w : Watch) : WatchOutcome :=
  { id := w.id, finalState := w.state, exitCode := w.exit.join, terminated := w.terminated }

def brokenOutcome (id : ProcessId) (seen : Health) : WatchOutcome :=
  { id, finalState := seen, exitCode := none, terminated := false }

def callsForReap (mode : ActionMode) : Health → Bool
  | .zombie => true
  | .runaway | .stuck | .leaking => mode = .kill
  | _ => false

/-- What is known about the process and its group; nothing if the group cannot be looked at. The group is
asked for only once the process is known to be gone. -/
def liveness? (w : Watch) (group : GroupProbe) : Option Liveness :=
  if w.parentGone then
    match group with
    | .ok [] => some .groupEmpty
    | .ok members => some (.parentGone members.length)
    | .error .gone => some .groupEmpty
    | .error (.unavailable _) => none
  else some .running

/-- The phase in which nothing is in progress: a terminal state ends the watch, but the exit status of a
workload that is gone is still waited for. -/
def settle (w : Watch) : Watch :=
  if w.state.isTerminal then
    { w with phase := if w.state = .gone && w.exit.isNone then .draining else .finished }
  else { w with phase := .serving }

def publish (w : Watch) (now : Nat) : Monitor × Option Diagnosis → Watch × List WatchEffect
  | (monitor, none) => ({ w with monitor }, [])
  | (monitor, some d) => ({ w with monitor, published := d.target }, [.diagnosed now d])

def respond (s : Settings) (w : Watch) (d : Option Diagnosis) : Watch :=
  if d.any fun d => callsForReap s.action.mode d.target then
    { w with phase := .reaping .graceful .opening }
  else w.settle

def tick (s : Settings) (w : Watch) (now : Nat) (group : GroupProbe) :
    Except SpanOverflow (Watch × List WatchEffect) :=
  match w.liveness? group with
  | none => .ok (w, [])
  | some liveness =>
    (w.monitor.tick s now liveness).map fun judged =>
      let (w, effects) := w.publish now judged
      (respond s w judged.2, effects)

def serve (s : Settings) (w : Watch) : WatchEvent → Except SpanOverflow (Watch × List WatchEffect)
  | .line time l => .ok ({ w with monitor := w.monitor.recordLine time l }, [])
  | .reading r =>
    .ok ({ w with monitor := w.monitor.recordSample r.time r.cpuPercent r.residentBytes }, [])
  | .sampleFailed .processGone => .ok ({ w with parentGone := true }, [])
  | .sampleFailed (.unavailable _) => .ok (w, [])
  | .exited code => .ok ({ w with parentGone := true, exit := some code }, [])
  | .tick now group => w.tick s now group
  | .reset now =>
    let (w, effects) := w.publish now (w.monitor.reset now)
    .ok (w.settle, effects)
  | .shutdown immediate =>
    .ok ({ w with phase := .reaping (if immediate then .immediate else .graceful) .opening }, [])
  | .commandsEnded => .ok ({ w with commandsOpen := false }, [])
  | .turn .. | .drained => .ok (w, [])

def reapTurn (s : Settings) (w : Watch) (mode : ReapMode) (stage : Reap.Stage) (now : Nat)
    (group : GroupProbe) (escalated : Bool) : Watch × List WatchEffect :=
  match Reap.turn s.reaping w.id.pgid mode stage now group escalated with
  | .send pgid signal next => ({ w with phase := .reaping mode next }, [.signalled pgid signal])
  | .pause ms next => ({ w with phase := .reaping mode next }, [.paused ms])
  | .done .alreadyReaped => (w.settle, [])
  | .done (.terminated ..) => ({ w with terminated := true }.settle, [])
  | .failed failure =>
    let (w, effects) := w.publish now (w.monitor.abandon failure.message now)
    ({ w with terminated := true }.settle, effects)

/-- What is listened to: a reap in progress takes its turns only, and a drain waits for the exit status
only. -/
def listens (w : Watch) : WatchEvent → Bool
  | .turn .. => w.phase.isReaping
  | .drained => w.phase = .draining
  | .exited _ => w.phase = .serving || w.phase = .draining
  | .reset _ | .shutdown _ | .commandsEnded => w.phase = .serving && w.commandsOpen
  | .line .. | .reading _ | .sampleFailed _ | .tick .. => w.phase = .serving

def step (s : Settings) (w : Watch) (e : WatchEvent) :
    Except SpanOverflow (Watch × List WatchEffect) :=
  if w.listens e then
    match w.phase, e with
    | .serving, e => w.serve s e
    | .reaping mode stage, .turn now group escalated =>
      .ok (w.reapTurn s mode stage now group escalated)
    | .draining, .exited code => .ok ({ w with exit := some code, phase := .finished }, [])
    | .draining, .drained => .ok ({ w with phase := .finished }, [])
    | _, _ => .ok (w, [])
  else .ok (w, [])

def run (s : Settings) (w : Watch) : List WatchEvent → Except SpanOverflow (Watch × List WatchEffect)
  | [] => .ok (w, [])
  | e :: es =>
    match w.step s e with
    | .error x => .error x
    | .ok (w, effects) => (run s w es).map fun (w, more) => (w, effects ++ more)

end Watch

end Vigil
