import Vigil.Settings.Basic
import Vigil.Decimal.Shortest

/-!
# Checking settings

The rules that keep every detector meaningful, in the order in which they are checked: the first one that
is broken is reported. Values are compared as doubles. What is not a number lies in every range, but it is
no fraction.
-/

namespace Vigil.Settings

inductive Demand where
  | between (low high : Float)
  | fraction
  deriving DecidableEq, Repr

def Demand.holds : Demand → Float → Bool
  | .between low high, x => !(x < low || high < x)
  | .fraction, x => 0 < x && x ≤ 1

def Demand.text : Demand → String
  | .between low high =>
    s!"must be between {Decimal.Layout.plain.text low} and {Decimal.Layout.plain.text high}"
  | .fraction => "must be a fraction in (0, 1]"

structure Rule where
  key : String
  demand : Demand
  value : Float
  deriving DecidableEq, Repr

namespace Rule

def holds (r : Rule) : Bool := r.demand.holds r.value

def message (r : Rule) : String :=
  s!"invalid config: {r.key} {r.demand.text}, got {Decimal.Layout.plain.text r.value}"

end Rule

def rules (s : Settings) : List Rule :=
  [ ⟨"sampler.interval_ms", .between 50 60000, .ofNat s.sampling.intervalMs⟩,
    ⟨"classifier.tick_ms", .between 50 60000, .ofNat s.assessment.tickMs⟩,
    ⟨"logs.window_lines", .between 2 10000, .ofNat s.logs.windowLines⟩,
    ⟨"logs.min_lines", .between 1 (.ofNat s.logs.windowLines), .ofNat s.logs.minLines⟩,
    ⟨"logs.exact_threshold", .fraction, s.logs.exactThreshold⟩,
    ⟨"logs.fuzzy_threshold", .fraction, s.logs.fuzzyThreshold⟩,
    ⟨"logs.progress_diversity", .fraction, s.logs.progressDiversity⟩,
    ⟨"cpu.sustained_percent", .between 1 100, s.cpu.sustainedPercent⟩,
    ⟨"cpu.window_secs", .between 1 3600, .ofNat s.cpu.windowSecs⟩,
    ⟨"memory.leak_min_samples", .between 2 (.ofNat s.sampling.historyCapacity),
      .ofNat s.memory.leakMinSamples⟩,
    ⟨"reaper.max_attempts", .between 1 10, .ofNat s.reaping.maxAttempts⟩,
    ⟨"reaper.poll_ms", .between 10 10000, .ofNat s.reaping.pollMs⟩ ]

def broken? (s : Settings) : Option Rule := s.rules.find? fun r => !r.holds

def Accepted (s : Settings) : Prop := s.broken? = none

instance (s : Settings) : Decidable s.Accepted := inferInstanceAs (Decidable (_ = none))

end Vigil.Settings
