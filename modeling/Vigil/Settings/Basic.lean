/-!
# Settings

What a watch is tuned with: how often to look, how much to remember, and from which values on a reading
counts as an alarm. Counts are natural numbers; shares and percentages are doubles.
-/

namespace Vigil

inductive ActionMode where
  | kill
  | observe
  deriving DecidableEq, Repr, Inhabited

namespace Settings

structure Sampling where
  intervalMs : Nat := 1000
  historyCapacity : Nat := 600
  deriving DecidableEq, Repr

structure Logs where
  windowLines : Nat := 50
  windowSecs : Nat := 30
  /-- Lines that must be left before a window that has lost lines by age counts as full. -/
  minLines : Nat := 10
  exactThreshold : Float := 0.7
  fuzzyThreshold : Float := 0.6
  progressDiversity : Float := 0.85
  deriving DecidableEq, Repr

structure Cpu where
  sustainedPercent : Float := 90
  windowSecs : Nat := 10
  runawayGraceSecs : Nat := 30
  deriving DecidableEq, Repr

structure Memory where
  leakMinSamples : Nat := 10
  leakMinSecs : Nat := 10
  deriving DecidableEq, Repr

structure Assessment where
  tickMs : Nat := 1000
  /-- How long a loop must last before the workload counts as stuck. -/
  loopDwellSecs : Nat := 10
  deriving DecidableEq, Repr

structure Reaping where
  graceMs : Nat := 5000
  killTimeoutMs : Nat := 2000
  pollMs : Nat := 100
  maxAttempts : Nat := 3
  deriving DecidableEq, Repr

structure Action where
  mode : ActionMode := .kill
  deriving DecidableEq, Repr

end Settings

structure Settings where
  sampling : Settings.Sampling := {}
  logs : Settings.Logs := {}
  cpu : Settings.Cpu := {}
  memory : Settings.Memory := {}
  assessment : Settings.Assessment := {}
  reaping : Settings.Reaping := {}
  action : Settings.Action := {}
  deriving DecidableEq, Repr

namespace Settings

def secs (n : Nat) : Nat := n * 1000

def Logs.window (s : Logs) : Nat := secs s.windowSecs

def Cpu.window (s : Cpu) : Nat := secs s.windowSecs

def Cpu.runawayGrace (s : Cpu) : Nat := secs s.runawayGraceSecs

def Memory.leakMinSpan (s : Memory) : Nat := secs s.leakMinSecs

def Assessment.loopDwell (s : Assessment) : Nat := secs s.loopDwellSecs

end Settings

end Vigil
