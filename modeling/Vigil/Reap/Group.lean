import Vigil.Process.Usage
import Vigil.Reap.Retry
import Vigil.Settings.Basic

/-!
# Reaping a process group

Terminates every live member of a group and makes sure that it is empty: a polite signal and a grace
period first, then the hard signal, as often as attempts are allowed. Reaping goes in turns. At each turn
it may look at the group, and then it sends a signal, pauses, or is done; who runs it sends the signal or
lets the time pass and then takes the next turn.
-/

namespace Vigil

inductive ReapMode where
  | graceful
  | immediate
  deriving DecidableEq, Repr

inductive ReapOutcome where
  | alreadyReaped
  | terminated (forced : Bool) (attempts : Nat)
  deriving DecidableEq, Repr

structure ReapFailure where
  pgid : Int
  survivors : List Int
  attempts : Nat
  deriving DecidableEq, Repr

namespace ReapFailure

def memberList (pids : List Int) : String :=
  "[" ++ ", ".intercalate (pids.map toString) ++ "]"

def message (f : ReapFailure) : String :=
  s!"process group {f.pgid} still has {f.survivors.length} live member(s) " ++
    s!"{memberList f.survivors} after {f.attempts} attempt(s)"

end ReapFailure

namespace Reap

inductive Stage where
  | opening
  | grace (deadline : Nat)
  | strike (attempt : Nat)
  | kill (attempt deadline : Nat)
  /-- All attempts are used up, and one look at the group remains. -/
  | lastLook (attempts : Nat)
  deriving DecidableEq, Repr

def Stage.looks : Stage → Bool
  | .strike _ => false
  | _ => true

inductive Turn where
  | send (pgid : Int) (signal : Signal) (next : Stage)
  | pause (ms : Nat) (next : Stage)
  | done (outcome : ReapOutcome)
  | failed (failure : ReapFailure)
  deriving DecidableEq, Repr

/-- The live members, as far as one can tell: a group that cannot be looked at counts as alive. -/
def liveMembers (pgid : Int) : GroupProbe → List Int
  | .ok members => members
  | .error .gone => []
  | .error (.unavailable _) => [pgid]

def longestPause : Nat := 2000

def strike (s : Settings.Reaping) (pgid : Int) (attempt now : Nat) : Turn :=
  .send pgid .kill (.kill attempt (now + s.killTimeoutMs))

def begin (s : Settings.Reaping) (pgid : Int) (mode : ReapMode) (now : Nat) (escalated : Bool) :
    Turn :=
  match ({ limit := s.maxAttempts } : Attempts).next with
  | (_, none) => .pause 0 (.lastLook 0)
  | (_, some attempt) =>
    if mode = .graceful && !escalated then .send pgid .terminate (.grace (now + s.graceMs))
    else strike s pgid attempt now

def afterAttempt (s : Settings.Reaping) (attempt : Nat) : Stage :=
  match ({ limit := s.maxAttempts, made := attempt } : Attempts).next with
  | (_, some again) => .strike again
  | (_, none) => .lastLook attempt

/-- One turn at time `now`. `group` is what a look at the group answers and `escalated` whether the grace
period is to be cut short. -/
def turn (s : Settings.Reaping) (pgid : Int) (mode : ReapMode) (stage : Stage) (now : Nat)
    (group : GroupProbe) (escalated : Bool) : Turn :=
  let members := liveMembers pgid group
  match stage with
  | .opening => if members = [] then .done .alreadyReaped else begin s pgid mode now escalated
  | .grace deadline =>
    if members = [] then .done (.terminated false 1)
    else if deadline ≤ now || escalated then strike s pgid 1 now
    else .pause s.pollMs stage
  | .strike attempt => strike s pgid attempt now
  | .kill attempt deadline =>
    if members = [] then .done (.terminated true attempt)
    else if deadline ≤ now then
      .pause (backoff s.pollMs attempt longestPause) (afterAttempt s attempt)
    else .pause s.pollMs stage
  | .lastLook attempts =>
    if members = [] then .done (.terminated true attempts)
    else .failed ⟨pgid, members, attempts⟩

end Reap

end Vigil
