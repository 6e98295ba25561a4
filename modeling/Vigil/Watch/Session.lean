import Vigil.Watch.Attendance

/-!
# A watch and who attends to it

The two run side by side: the watch serves its events, each of its diagnoses is sent on by itself, and the
attendant receives diagnoses, passes stop signals on, and leaves once the published state is terminal. A
session is a state of both and of what is under way between them. An event that cannot happen in a state
changes nothing, so every list of events is an interleaving of the two sides.
-/

namespace Vigil

inductive SessionEvent where
  | feed (e : WatchEvent)
  | obey
  | reapTurn (now : Nat) (group : GroupProbe)
  | send
  | signal (s : StopSignal) (now : Nat)
  | receive
  | leave
  | collect

structure Session where
  watch : Watch
  attendance : Attendance := {}
  escalated : Bool := false
  requests : List StopRequest := []
  unsent : List TimedDiagnosis := []
  emitted : List TimedDiagnosis := []
  signals : List Signal := []

namespace Session

def start (s : Settings) (id : ProcessId) (now : Nat) : Session := { watch := .start s id now }

def diagnosesOf : List WatchEffect → List TimedDiagnosis
  | [] => []
  | .diagnosed time d :: es => (time, d) :: diagnosesOf es
  | _ :: es => diagnosesOf es

def signalsOf : List WatchEffect → List Signal
  | [] => []
  | .signalled _ s :: es => s :: signalsOf es
  | _ :: es => signalsOf es

/-- The watch serves an event. It does so only when all its diagnoses are sent. -/
def serve (s : Settings) (n : Session) (e : WatchEvent) : Except SpanOverflow Session :=
  if n.unsent.isEmpty then
    (n.watch.step s e).map fun (watch, effects) =>
      { n with
        watch
        unsent := diagnosesOf effects
        emitted := n.emitted ++ diagnosesOf effects
        signals := n.signals ++ signalsOf effects }
  else .ok n

/-- One event. It is assumed that a turn of a reap looks at the group, reads the flag and sends its signal at one
instant: no other event falls between them. -/
def step (s : Settings) (n : Session) : SessionEvent → Except SpanOverflow Session
  | .feed e => if e.isFeed then n.serve s e else .ok n
  | .obey =>
    match n.watch.phase, n.unsent, n.requests with
    | .serving, [], r :: rest => { n with requests := rest }.serve s (.shutdown (r = StopRequest.immediate))
    | _, _, _ => .ok n
  | .reapTurn now group => n.serve s (.turn now group n.escalated)
  | .send =>
    match n.unsent with
    | d :: rest => .ok { n with unsent := rest, attendance := n.attendance.deliver d }
    | [] => .ok n
  | .signal sig now =>
    match n.attendance.signal sig now with
    | (attendance, none) => .ok { n with attendance }
    | (attendance, some r) =>
      .ok { n with
        attendance
        escalated := n.escalated || r = StopRequest.immediate
        requests := n.requests ++ [r] }
  | .receive => .ok { n with attendance := n.attendance.receive }
  | .leave =>
    .ok (if n.watch.published.isTerminal then { n with attendance := n.attendance.leave } else n)
  | .collect =>
    .ok (if n.watch.phase = .finished && n.unsent.isEmpty && !n.attendance.listening then
        { n with attendance := n.attendance.collect }
      else n)

end Session

end Vigil
