import Vigil.Reap.Group
import Vigil.Rehearsal.Host

/-!
# Reaps on a scripted host

A reap run to its end, turn by turn, with the time that it takes.
-/

namespace Vigil.Rehearsal

structure ReapReport where
  start : Nat
  stop : Nat
  result : ReapOutcome ⊕ ReapFailure
  deriving DecidableEq, Repr

/-- More turns than a reap can take if its polls let time pass: the grace period, and each attempt's
timeout, in polls, with a few turns around them. -/
def turnBound (s : Settings.Reaping) : Nat :=
  let polls (ms : Nat) : Nat := ms / max s.pollMs 1 + 4
  polls s.graceMs + (s.maxAttempts + 1) * polls s.killTimeoutMs

/-- Takes turns until the reap is done. `escalated` tells for each time whether the grace period is cut
short. -/
def runTurns (s : Settings.Reaping) (pgid : Int) (mode : ReapMode) (escalated : Nat → Bool) :
    Nat → Reap.Stage → Host → Nat → Host × Nat × Option (ReapOutcome ⊕ ReapFailure)
  | 0, _, h, now => (h, now, none)
  | fuel + 1, stage, h, now =>
    match Reap.turn s pgid mode stage now (h.groupMembers pgid now) (escalated now) with
    | .send group signal next =>
      runTurns s pgid mode escalated fuel next (h.signalGroup group signal now) now
    | .pause ms next => runTurns s pgid mode escalated fuel next h (now + ms)
    | .done outcome => (h, now, some (.inl outcome))
    | .failed failure => (h, now, some (.inr failure))

def reap (s : Settings.Reaping) (pgid : Int) (mode : ReapMode) (escalated : Nat → Bool) (h : Host)
    (now : Nat) : Host × Option ReapReport :=
  let (h, stop, result) := runTurns s pgid mode escalated (turnBound s) .opening h now
  (h, result.map fun r => ⟨now, stop, r⟩)

def reapAll (s : Settings.Reaping) (pgid : Int) (escalated : Nat → Bool) (h : Host) (now : Nat) :
    List (Nat × ReapMode) → Host × List ReapReport
  | [] => (h, [])
  | (t, mode) :: calls =>
    let (h, report) := reap s pgid mode escalated h (max now t)
    let (h, reports) := reapAll s pgid escalated h ((report.map (·.stop)).getD now) calls
    (h, report.toList ++ reports)

end Vigil.Rehearsal
