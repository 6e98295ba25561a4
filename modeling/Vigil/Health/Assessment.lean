import Vigil.Evidence.Repetition
import Vigil.Evidence.Trend
import Vigil.Health.State
import Vigil.Text.Quoted

/-!
# Assessment of health

Puts the repetition report, the resource trends and the liveness of a workload together into one health
state. Each change of state yields one diagnosis. An alarm gives way only to a more severe one, to the
end of the workload, or to a reset; the terminal states give way to nothing.
-/

namespace Vigil

inductive Liveness where
  | running
  | parentGone (descendants : Nat)
  | groupEmpty
  deriving DecidableEq, Repr

structure Observation where
  time : Nat
  repetition : Repetition
  resources : Resources
  liveness : Liveness
  lastLine : Option String
  deriving DecidableEq, Repr

/-- A judgement cannot be made: the two spans added exceed what a duration can hold. -/
inductive SpanOverflow where
  | overflow
  deriving DecidableEq, Repr

def SpanOverflow.message : SpanOverflow → String
  | .overflow => "overflow when adding durations"

namespace Settings

/-- One more than the longest duration, in milliseconds: seconds are counted in sixty-four bits. -/
def spanLimit : Nat := Nat.pow 2 64 * 1000

end Settings

structure Assessor where
  process : ProcessId
  state : Health := .healthy
  loopSince : Option Nat := none
  sustainedSince : Option Nat := none
  deriving DecidableEq, Repr

namespace Assessor

def timer (on : Bool) (time : Nat) (since : Option Nat) : Option Nat :=
  if on then some (since.getD time) else none

def withLine (evidence : String) : Option String → String
  | some line => s!"{evidence}; last line: {Quoted.encode line}"
  | none => evidence

def enter (a : Assessor) (target : Health) (evidence : String) : Assessor × Option Diagnosis :=
  if target = a.state then (a, none)
  else ({ a with state := target }, some ⟨a.process, a.state, target, evidence⟩)

def noteTimers (a : Assessor) (obs : Observation) : Assessor :=
  { a with
    loopSince := timer obs.repetition.isLoopEvidence obs.time a.loopSince
    sustainedSince := timer (obs.resources.cpu.verdict = .sustained) obs.time a.sustainedSince }

def runawayAlarm (s : Settings) (a : Assessor) (obs : Observation) : Option String :=
  if obs.resources.cpu.verdict = .sustained then
    if obs.repetition.isLoopEvidence then
      some (withLine s!"{obs.resources.describeCpu} with {obs.repetition.describe}" obs.lastLine)
    else
      let lasted := (a.sustainedSince.map (obs.time - ·)).getD 0
      if s.cpu.runawayGrace ≤ lasted then
        some s!"{obs.resources.describeCpu} for {lasted / 1000}s without repetitive output"
      else none
  else none

/-- A loop that has lasted for the dwell means stuck. While the load is high but its window not yet
covered, it may still turn out to be a runaway, so the alarm waits, yet no longer than one CPU window. -/
def stuckAlarm (s : Settings) (a : Assessor) (obs : Observation) : Except SpanOverflow (Option String) :=
  match a.loopSince with
  | none => .ok none
  | some since =>
    let lasted := obs.time - since
    let patience := s.assessment.loopDwell + s.cpu.window
    if obs.resources.cpu.warming && Settings.spanLimit ≤ patience then .error .overflow
    else
      let pending := obs.resources.cpu.warming && lasted < patience
      if s.assessment.loopDwell ≤ lasted && !pending then
        .ok (some (withLine s!"{obs.repetition.describe} for {lasted / 1000}s" obs.lastLine))
      else .ok none

def alarm (s : Settings) (a : Assessor) (obs : Observation) :
    Except SpanOverflow (Option (Health × String)) :=
  if obs.resources.leaking then .ok (some (.leaking, obs.resources.growth.describe))
  else
    match runawayAlarm s a obs with
    | some evidence => .ok (some (.runaway, evidence))
    | none => (stuckAlarm s a obs).map (·.map (Health.stuck, ·))

/-- The state of a running workload: an alarm if it is a new or a more severe one, else what the load
says, unless an alarm stands. -/
def assessRunning (s : Settings) (a : Assessor) (obs : Observation) :
    Except SpanOverflow (Assessor × Option Diagnosis) :=
  (alarm s a obs).map fun found =>
    match found with
    | some (target, evidence) =>
      if a.state.isSticky && target.severity ≤ a.state.severity then (a, none)
      else a.enter target evidence
    | none =>
      if a.state.isSticky then (a, none)
      else
        match obs.resources.cpu.verdict with
        | .spiking => a.enter .bursty obs.resources.describeCpu
        | .normal => a.enter .healthy obs.resources.describeCpu
        | .sustained => (a, none)

def groupEmptyText (id : ProcessId) : String := s!"process group {id.pgid} has no live members"

def orphanText (id : ProcessId) (descendants : Nat) : String :=
  s!"tracked process {id.pid} is gone but {descendants} member(s) of group {id.pgid} are still alive"

def observe (s : Settings) (a : Assessor) (obs : Observation) :
    Except SpanOverflow (Assessor × Option Diagnosis) :=
  if a.state.isTerminal then .ok (a, none)
  else
    let a := a.noteTimers obs
    match obs.liveness with
    | .groupEmpty => .ok (a.enter .gone (groupEmptyText a.process))
    | .parentGone n => .ok (a.enter .zombie (orphanText a.process n))
    | .running => assessRunning s a obs

def abandon (a : Assessor) (reason : String) : Assessor × Option Diagnosis :=
  if a.state.isTerminal then (a, none) else a.enter .unreapable reason

def reset (a : Assessor) : Assessor × Option Diagnosis :=
  if a.state.isTerminal then (a, none)
  else enter { a with loopSince := none, sustainedSince := none } .healthy "tracking reset"

end Assessor

end Vigil
