import Vigil.Output.Stream
import Vigil.Rehearsal.Host
import Vigil.Watch.Supervisor

/-!
# One workload on a scripted host

A watched process whose events come from a scripted program: the two output streams, the meter, and the
wait for the exit status bring them into its queue; the watch takes from the queue, from the commands,
and from its clock, whenever it is not busy reaping. The queue has room for a number of events only. Who
finds it full waits with the event at its end and does nothing else until there is room again.
-/

namespace Vigil.Rehearsal

structure StreamScript where
  pieces : List (Nat × List UInt8) := []
  breaks : Bool := false
  deriving DecidableEq, Repr

structure Program where
  process : Actor
  showsPid : Bool := true
  extra : List Actor := []
  /-- What the looks at its process tree answer, one after the other; the last answer is repeated. -/
  usage : List TreeProbe := []
  stdout : StreamScript := {}
  stderr : StreamScript := {}
  waitFailsAt : Option Nat := none

def eventRoom : Nat := 1024

inductive Feeder where
  | stdout
  | stderr
  | meter
  | exit
  deriving DecidableEq, Repr

structure StreamState where
  pieces : List (Nat × List UInt8)
  breaks : Bool
  reader : LineReader := {}
  segments : List (List UInt8) := []
  isOpen : Bool := true
  echoing : Bool
  deriving DecidableEq, Repr

def StreamState.ofScript (s : StreamScript) (echoing : Bool) : StreamState :=
  { pieces := s.pieces, breaks := s.breaks, echoing }

def StreamState.due (s : StreamState) : Option Nat :=
  if !s.segments.isEmpty then some 0
  else if s.isOpen then some ((s.pieces.head?.map (·.1)).getD 0)
  else none

/-- The next piece arrives. A piece that was to be written after the death of the process is lost, and the
stream is at its end. -/
def StreamState.advance (s : StreamState) (death : Option Death) : StreamState :=
  let ended : StreamState :=
    { s with isOpen := false, reader := {}, segments := if s.breaks then [] else s.reader.finish }
  match s.pieces with
  | [] => ended
  | (time, piece) :: rest =>
    if death.all fun d => time < d.time then
      let (segments, reader) := s.reader.feed piece
      { s with pieces := rest, reader, segments }
    else ended

structure Task extends Charge where
  place : Nat
  /-- Who brought each event of the queue. Those for whose event there is no room wait. -/
  brought : List Feeder := []
  nextTick : Nat
  nextSample : Option Nat
  usage : List TreeProbe
  stdout : StreamState
  stderr : StreamState
  waitFailsAt : Option Nat
  nextTurn : Nat := 0
  drainUntil : Nat := 0

/-- What is copied through, and how many more writes succeed; no limit if none is given. It is assumed that a write
takes its segment whole or not at all. -/
structure Echo where
  budget : Option Nat := none
  written : List (Bool × List UInt8) := []
  deriving DecidableEq, Repr

def Echo.bytes (e : Echo) (toStderr : Bool) : List UInt8 :=
  (e.written.reverse.filter (·.1 = toStderr)).flatMap (·.2)

def Echo.write (e : Echo) (toStderr : Bool) (segment : List UInt8) : Option Echo :=
  let after : Echo := { e with written := (toStderr, segment) :: e.written }
  match e.budget with
  | none => some after
  | some 0 => none
  | some (n + 1) => some { after with budget := some n }

structure Surroundings where
  host : Host
  echo : Echo
  diagnoses : List (Nat × Diagnosis) := []

namespace Task

def start (s : Settings) (pid : Int) (program : Program) (place : Nat) (passthrough : Bool)
    (now : Nat) : Task :=
  { toCharge := .start s ⟨pid, pid⟩ now
    place
    nextTick := now
    nextSample := if 0 < s.sampling.intervalMs then some now else none
    usage := program.usage
    stdout := .ofScript program.stdout passthrough
    stderr := .ofScript program.stderr passthrough
    waitFailsAt := program.waitFailsAt }

def isWaiting (t : Task) (f : Feeder) : Bool := (t.brought.drop eventRoom).contains f

def bring (t : Task) (f : Feeder) (watched : Watched) : Task :=
  { t with
    watched
    brought := t.brought ++ List.replicate (watched.queue.length - t.watched.queue.length) f }

def notice (now : Nat) (t : Task) (h : Host) : Task :=
  match h.deathOf t.place with
  | some d => if d.time ≤ now then { t with watched := t.watched.endWith d.code } else t
  | none => t

def exitDue (t : Task) (h : Host) : Option (Nat × WaitResult) :=
  if t.watched.waitOver then none
  else
    match t.waitFailsAt with
    | some time => some (time, .failed)
    | none => (h.deathOf t.place).map fun d => (d.time, .collected d.code)

def tickTolerance : Nat := 5

/-- When the tick after one that was due at `due` and happened at `now` is due. -/
def tickAfter (period due now : Nat) : Nat :=
  if due + tickTolerance < now then now + period else due + period

def applyEffects (now : Nat) (t : Task) (around : Surroundings) :
    List WatchEffect → Task × Surroundings
  | [] => (t, around)
  | .diagnosed time d :: more =>
    applyEffects now t { around with diagnoses := around.diagnoses ++ [(time, d)] } more
  | .signalled pgid signal :: more =>
    applyEffects now t { around with host := around.host.signalGroup pgid signal now } more
  | .paused ms :: more => applyEffects now { t with nextTurn := now + ms } around more

/-- Something happens to the workload. Unless its watch pauses, a reap goes on at once; a drain that begins
has its whole time before it. -/
def act (s : Settings) (now : Nat) (t : Task) (around : Surroundings) (e : ChargeEvent) :
    Task × Surroundings :=
  let drainUntil := if t.watch.phase = .draining then t.drainUntil else now + Watch.drainTime
  let (charge, effects) := t.step s e
  applyEffects now { t with toCharge := charge, nextTurn := now, drainUntil } around effects

def take (s : Settings) (now : Nat) (t : Task) (around : Surroundings) : Task × Surroundings :=
  { t with brought := t.brought.drop 1 }.act s now around (.feed .take)

def stream (t : Task) (toStderr : Bool) : StreamState := if toStderr then t.stderr else t.stdout

def setStream (t : Task) (toStderr : Bool) (stream : StreamState) : Task :=
  if toStderr then { t with stderr := stream } else { t with stdout := stream }

/-- Copies a segment through and brings its line. The first write that fails ends the copying. -/
def readSegment (now : Nat) (t : Task) (around : Surroundings) (toStderr : Bool)
    (segment : List UInt8) : Task × Surroundings :=
  let event : WatchEvent := .line now (.ofSegment segment)
  let t := t.bring (if toStderr then .stderr else .stdout) (t.watched.bring event)
  let stream := t.stream toStderr
  if stream.echoing then
    match around.echo.write toStderr segment with
    | some echo => (t, { around with echo })
    | none => (t.setStream toStderr { stream with echoing := false }, around)
  else (t, around)

def readStream (now : Nat) (t : Task) (around : Surroundings) (toStderr : Bool) :
    Task × Surroundings :=
  let stream := t.stream toStderr
  match stream.segments with
  | [] => (t.setStream toStderr (stream.advance (around.host.deathOf t.place)), around)
  | segment :: segments =>
    (t.setStream toStderr { stream with segments }).readSegment now around toStderr segment

def lookAtTree (t : Task) (h : Host) (now : Nat) : TreeProbe × List TreeProbe :=
  if h.isAlive t.id.pid now then
    match t.usage with
    | [] => (.ok [], [])
    | [last] => (last, [last])
    | answer :: rest => (answer, rest)
  else (.error .gone, t.usage)

def takeSample (s : Settings) (now due : Nat) (t : Task) (h : Host) : Task :=
  let (answer, usage) := t.lookAtTree h now
  let watched := t.watched.look now answer
  let next := if watched.meter.gone then none else some (tickAfter s.sampling.intervalMs due now)
  { t with usage, nextSample := next }.bring .meter watched

def dueOf (t : Task) (h : Host) (f : Feeder) : Option Nat :=
  if t.isWaiting f then none
  else
    match f with
    | .stdout => t.stdout.due
    | .stderr => t.stderr.due
    | .meter => t.nextSample
    | .exit => (t.exitDue h).map (·.1)

def feeders : List Feeder := [.stdout, .stderr, .meter, .exit]

def feedBy (s : Settings) (now due : Nat) (t : Task) (around : Surroundings) :
    Feeder → Task × Surroundings
  | .stdout => t.readStream now around false
  | .stderr => t.readStream now around true
  | .meter => (t.takeSample s now due around.host, around)
  | .exit =>
    match t.exitDue around.host with
    | some (_, result) => (t.bring .exit (t.watched.finishWait result), around)
    | none => (t, around)

def feed? (s : Settings) (now : Nat) (t : Task) (around : Surroundings) :
    Option (Task × Surroundings) :=
  feeders.findSome? fun f =>
    match t.dueOf around.host f with
    | some due => if due ≤ now then some (t.feedBy s now due around f) else none
    | none => none

def tick (s : Settings) (now : Nat) (t : Task) (around : Surroundings) : Task × Surroundings :=
  let next := tickAfter s.assessment.tickMs t.nextTick now
  let group := around.host.groupMembers t.id.pgid now
  act s now { t with nextTick := next } around (.feed (.direct (.tick now group)))

def watch? (s : Settings) (now : Nat) (t : Task) (around : Surroundings) :
    Option (Task × Surroundings) :=
  match t.watch.phase, t.watched.queue with
  | .reaping .., _ =>
    if t.nextTurn ≤ now then
      let group := around.host.groupMembers t.id.pgid now
      some (t.act s now around (.reapTurn now group))
    else none
  | .serving, _ :: _ | .draining, _ :: _ => some (t.take s now around)
  | .serving, [] =>
    if !t.commands.isEmpty || t.commandsEnded && t.watch.commandsOpen then
      some (t.act s now around (.obey now))
    else if t.nextTick ≤ now then some (t.tick s now around)
    else none
  | .draining, [] =>
    if t.drainUntil ≤ now then some (t.act s now around (.feed (.direct .drained))) else none
  | .finished, _ => none

def advance? (s : Settings) (now : Nat) (t : Task) (around : Surroundings) :
    Option (Task × Surroundings) :=
  if t.isFinished then none
  else
    let t := t.notice now around.host
    (t.feed? s now around).or (t.watch? s now around)

def timers (t : Task) (h : Host) : List Nat :=
  let own : Option Nat :=
    match t.watch.phase with
    | .serving => some t.nextTick
    | .reaping .. => some t.nextTurn
    | .draining => some t.drainUntil
    | .finished => none
  if t.isFinished then [] else (own :: feeders.map (t.dueOf h)).filterMap fun x => x

end Task

end Vigil.Rehearsal
