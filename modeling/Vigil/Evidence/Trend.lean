import Vigil.Decimal.Fixed
import Vigil.Evidence.Ring
import Vigil.Settings.Basic

/-!
# Trends of CPU load and memory

CPU load is judged over a short window: a high mean over the whole of it is sustained, a high peak with a
lower mean is a spike. Memory is judged over the whole history, since leaks are slow: the run of strictly
increasing readings at its end must be long enough in count and in time.
-/

namespace Vigil

inductive CpuVerdict where
  | normal
  | spiking
  | sustained
  deriving DecidableEq, Repr, Inhabited

def CpuVerdict.title : CpuVerdict → String
  | .normal => "Normal"
  | .spiking => "Spiking"
  | .sustained => "Sustained"

/-- The strictly increasing run at the end of the memory readings. -/
structure Growth where
  samples : Nat := 0
  span : Nat := 0
  bytes : Nat := 0
  deriving DecidableEq, Repr

namespace Growth

/-- Extends a run over older readings, newest first, as long as they are smaller than the one after
them. `newest` is the last reading of all and `later` the oldest of the run so far. -/
def extend (newest : Stamped Nat) (later : Nat) (run : Growth) : List (Stamped Nat) → Growth
  | [] => run
  | e :: older =>
    if e.value < later then
      extend newest e.value
        ⟨run.samples + 1, newest.time - e.time, newest.value - e.value⟩ older
    else run

def trailing (memory : Ring Nat) : Growth :=
  match memory.entries.reverse with
  | [] => {}
  | newest :: older => extend newest newest.value ⟨1, 0, 0⟩ older

def describe (g : Growth) : String :=
  s!"memory grew {g.bytes} bytes across {g.samples} consecutive samples over {g.span / 1000}s"

end Growth

structure CpuLoad where
  verdict : CpuVerdict := .normal
  mean : Float := 0
  peak : Float := 0
  /-- The mean is high already, but the readings do not reach back a whole window. -/
  warming : Bool := false
  deriving DecidableEq, Repr

namespace CpuLoad

def total (xs : List Float) : Float := xs.foldl (· + ·) (-0.0)

def meanOf (xs : List Float) : Float := total xs / Float.ofNat xs.length

/-- The larger of two readings; what is no number does not count. -/
def greater (a b : Float) : Float := if b ≤ a || b.isNaN then a else b

def least : Float := Float.ofBits 0xFFEFFFFFFFFFFFFF

def peakOf (xs : List Float) : Float := xs.foldl greater least

def covers (cpu : Ring Float) (window : Nat) : Bool :=
  match cpu.oldest?, cpu.newest? with
  | some oldest, some newest => window ≤ newest.time - oldest.time
  | _, _ => false

def evaluate (s : Settings.Cpu) (cpu : Ring Float) : CpuLoad :=
  match (cpu.recent s.window).map (·.value) with
  | [] => {}
  | xs =>
    let high : Bool := s.sustainedPercent ≤ meanOf xs
    let covered := covers cpu s.window
    let verdict :=
      if covered && high then .sustained
      else if s.sustainedPercent ≤ peakOf xs then .spiking
      else .normal
    { verdict, mean := meanOf xs, peak := peakOf xs, warming := high && !covered }

end CpuLoad

structure Resources where
  cpu : CpuLoad := {}
  leaking : Bool := false
  growth : Growth := {}
  deriving DecidableEq, Repr

namespace Resources

def isLeak (s : Settings.Memory) (g : Growth) : Bool :=
  s.leakMinSamples ≤ g.samples && s.leakMinSpan ≤ g.span

def evaluate (cpu : Settings.Cpu) (memory : Settings.Memory) (cpuSamples : Ring Float)
    (memSamples : Ring Nat) : Resources :=
  let growth := Growth.trailing memSamples
  { cpu := .evaluate cpu cpuSamples, leaking := isLeak memory growth, growth }

def describeCpu (r : Resources) : String :=
  let c := r.cpu
  s!"cpu {c.verdict.title}: window mean {Decimal.fixed 1 c.mean}%, peak {Decimal.fixed 1 c.peak}%"

end Resources

end Vigil
