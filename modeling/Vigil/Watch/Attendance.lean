import Vigil.Watch.Basic
import Vigil.Watch.Interrupt

/-!
# Attending to a watch

The side of a run that listens: it records the diagnoses that the watch sends, passes stop signals on, and
stops listening when it sees the workload in a terminal state. Diagnoses wait in a queue until they are
received; those that still wait when the watch has come to its end are recorded then.
-/

namespace Vigil

abbrev TimedDiagnosis := Nat × Diagnosis

structure Attendance where
  interrupts : Interrupts := {}
  listening : Bool := true
  unread : List TimedDiagnosis := []
  recorded : List TimedDiagnosis := []
  deriving DecidableEq, Repr

namespace Attendance

def deliver (a : Attendance) (d : TimedDiagnosis) : Attendance := { a with unread := a.unread ++ [d] }

def receive (a : Attendance) : Attendance :=
  match a.listening, a.unread with
  | true, d :: rest => { a with unread := rest, recorded := a.recorded ++ [d] }
  | _, _ => a

def signal (a : Attendance) (s : StopSignal) (now : Nat) : Attendance × Option StopRequest :=
  if a.listening then
    let (interrupts, request) := a.interrupts.receive s now
    ({ a with interrupts }, some request)
  else (a, none)

def leave (a : Attendance) : Attendance := { a with listening := false }

def collect (a : Attendance) : Attendance :=
  { a with unread := [], recorded := a.recorded ++ a.unread }

end Attendance

/-- The exit code of a run. It is the workload's own if the workload came to its end unsignalled and its
exit was seen, and one otherwise. -/
def runCode : Option WatchOutcome → Int
  | none => 1
  | some o => if o.finalState = .unreapable ∨ o.terminated then 1 else o.exitCode.getD 1

end Vigil
