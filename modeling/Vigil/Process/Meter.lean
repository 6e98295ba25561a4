import Vigil.Process.Usage

/-!
# Metering CPU load

A meter compares the CPU times of a process tree with those of the last look at it. The load is the time
that the members have been busy since then over the time that has passed; one core kept busy is 100
percent. A process seen for the first time counts with all of its time, and one that has ended counts no
more.
-/

namespace Vigil

structure Reading where
  time : Nat
  busy : Nat
  wall : Nat
  residentBytes : Nat
  deriving DecidableEq, Repr

namespace Reading

/-- Milliseconds as seconds: the whole seconds and the rest are converted apart and then added. -/
def seconds (ms : Nat) : Float :=
  Float.ofNat (ms / 1000) + Float.ofNat (ms % 1000 * 1000000) / 1000000000

def cpuPercent (r : Reading) : Float := seconds r.busy / seconds r.wall * 100

end Reading

inductive SampleError where
  | processGone
  | unavailable (reason : String)
  deriving DecidableEq, Repr

def SampleError.message : SampleError → String
  | .processGone => "tracked process is gone"
  | .unavailable reason => s!"sampling unavailable: {reason}"

structure Baseline where
  time : Nat
  cpuTimes : List (Int × Nat)
  deriving DecidableEq, Repr

structure Meter where
  baseline : Option Baseline := none
  gone : Bool := false
  deriving DecidableEq, Repr

namespace Meter

/-- The CPU time of each process of a list of usages. Of two entries for one process the last counts. -/
def cpuTimes : List Usage → List (Int × Nat)
  | [] => []
  | u :: us => if us.any fun v => v.pid = u.pid then cpuTimes us else (u.pid, u.cpuTime) :: cpuTimes us

def timeOf (times : List (Int × Nat)) (pid : Int) : Nat := (times.lookup pid).getD 0

/-- The CPU time that the processes of `current` have used since `previous`. It is assumed that all these times
together fit into a duration, which holds `2 ^ 64` seconds. -/
def busyTime (previous current : List (Int × Nat)) : Nat :=
  (current.map fun (pid, cpu) => cpu - timeOf previous pid).foldr (· + ·) 0

/-- One look at the tree, with what the probe answers. The first one only lays the baseline, and every one
after it moves the baseline, even if no time has passed and there is nothing to report. -/
def sample (m : Meter) (now : Nat) (probe : TreeProbe) :
    Meter × Except SampleError (Option Reading) :=
  if m.gone then (m, .error .processGone)
  else
    match probe with
    | .error .gone => ({ m with gone := true }, .error .processGone)
    | .error (.unavailable reason) => (m, .error (.unavailable reason))
    | .ok members =>
      let current := cpuTimes members
      let moved : Meter := { m with baseline := some ⟨now, current⟩ }
      match m.baseline with
      | none => (moved, .ok none)
      | some last =>
        let wall := now - last.time
        if wall = 0 then
          (moved, .error (.unavailable "no wall time elapsed since previous sample"))
        else
          (moved, .ok (some
            { time := now, busy := busyTime last.cpuTimes current, wall,
              residentBytes := Usage.totalResident members }))

end Meter

end Vigil
