import Vigil.Settings.Basic

/-!
# The schema of the settings

Under which names the settings are written, section by section in their order, and what kind of value each
takes. Reading, listing and checking all go by this table.
-/

namespace Vigil.Settings

inductive Kind where
  | count (width : Nat)
  | real
  | mode
  deriving DecidableEq, Repr

abbrev Kind.Value : Kind → Type
  | .count _ => Nat
  | .real => Float
  | .mode => ActionMode

structure Field where
  name : String
  kind : Kind
  get : Settings → kind.Value
  set : kind.Value → Settings → Settings

structure Section where
  name : String
  title : String
  fields : List Field

def samplingSection : Section where
  name := "sampler"
  title := "SamplerConfig"
  fields := [
    ⟨"interval_ms", .count 64, (·.sampling.intervalMs), fun n s => { s with sampling.intervalMs := n }⟩,
    ⟨"history_capacity", .count 64, (·.sampling.historyCapacity),
      fun n s => { s with sampling.historyCapacity := n }⟩]

def logsSection : Section where
  name := "logs"
  title := "LogConfig"
  fields := [
    ⟨"window_lines", .count 64, (·.logs.windowLines), fun n s => { s with logs.windowLines := n }⟩,
    ⟨"window_secs", .count 64, (·.logs.windowSecs), fun n s => { s with logs.windowSecs := n }⟩,
    ⟨"min_lines", .count 64, (·.logs.minLines), fun n s => { s with logs.minLines := n }⟩,
    ⟨"exact_threshold", .real, (·.logs.exactThreshold), fun x s => { s with logs.exactThreshold := x }⟩,
    ⟨"fuzzy_threshold", .real, (·.logs.fuzzyThreshold), fun x s => { s with logs.fuzzyThreshold := x }⟩,
    ⟨"progress_diversity", .real, (·.logs.progressDiversity),
      fun x s => { s with logs.progressDiversity := x }⟩]

def cpuSection : Section where
  name := "cpu"
  title := "CpuConfig"
  fields := [
    ⟨"sustained_percent", .real, (·.cpu.sustainedPercent),
      fun x s => { s with cpu.sustainedPercent := x }⟩,
    ⟨"window_secs", .count 64, (·.cpu.windowSecs), fun n s => { s with cpu.windowSecs := n }⟩,
    ⟨"runaway_grace_secs", .count 64, (·.cpu.runawayGraceSecs),
      fun n s => { s with cpu.runawayGraceSecs := n }⟩]

def memorySection : Section where
  name := "memory"
  title := "MemoryConfig"
  fields := [
    ⟨"leak_min_samples", .count 64, (·.memory.leakMinSamples),
      fun n s => { s with memory.leakMinSamples := n }⟩,
    ⟨"leak_min_secs", .count 64, (·.memory.leakMinSecs), fun n s => { s with memory.leakMinSecs := n }⟩]

def assessmentSection : Section where
  name := "classifier"
  title := "ClassifierConfig"
  fields := [
    ⟨"tick_ms", .count 64, (·.assessment.tickMs), fun n s => { s with assessment.tickMs := n }⟩,
    ⟨"loop_dwell_secs", .count 64, (·.assessment.loopDwellSecs),
      fun n s => { s with assessment.loopDwellSecs := n }⟩]

def reapingSection : Section where
  name := "reaper"
  title := "ReaperConfig"
  fields := [
    ⟨"grace_ms", .count 64, (·.reaping.graceMs), fun n s => { s with reaping.graceMs := n }⟩,
    ⟨"kill_timeout_ms", .count 64, (·.reaping.killTimeoutMs),
      fun n s => { s with reaping.killTimeoutMs := n }⟩,
    ⟨"poll_ms", .count 64, (·.reaping.pollMs), fun n s => { s with reaping.pollMs := n }⟩,
    ⟨"max_attempts", .count 32, (·.reaping.maxAttempts), fun n s => { s with reaping.maxAttempts := n }⟩]

def actionSection : Section where
  name := "action"
  title := "ActionConfig"
  fields := [⟨"mode", .mode, (·.action.mode), fun m s => { s with action.mode := m }⟩]

def schema : List Section :=
  [samplingSection, logsSection, cpuSection, memorySection, assessmentSection, reapingSection,
    actionSection]

end Vigil.Settings
