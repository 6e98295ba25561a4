import Vigil.Proofs.Health.Patience
import Vigil.Proofs.Settings.Documents
import Vigil.Proofs.Settings.Limits

/-!
# Judgements that cannot be made

While the load is high but its window not yet covered, a loop is put up with for the dwell and a CPU window. The
sum of the two must fit into a duration. Settings from a file are too small to exceed it; nothing else bounds the
dwell, and `run_overflows_iff` says where a run under an overlong one breaks off.
-/

namespace Vigil

structure Observation.AddsSpans (obs : Observation) : Prop extends obs.OnlyLoops where
  warming : obs.resources.cpu.warming

/-- The dwell and the CPU window exceed, one behind the other, what a duration can hold. -/
def Settings.Overlong (s : Settings) : Prop := 2 ^ 64 ≤ s.assessment.loopDwellSecs + s.cpu.windowSecs

instance (s : Settings) : Decidable s.Overlong := inferInstanceAs (Decidable (_ ≤ _))

theorem Settings.overlong_iff {s : Settings} :
    s.Overlong ↔ Settings.spanLimit ≤ s.assessment.loopDwell + s.cpu.window := by
  show 2 ^ 64 ≤ _ ↔ 2 ^ 64 * 1000 ≤ s.assessment.loopDwellSecs * 1000 + s.cpu.windowSecs * 1000
  omega

namespace Assessor

variable {s : Settings} {a : Assessor} {obs : Observation} {c : Call} {x : SpanOverflow}

theorem stuckAlarm_error_iff :
    stuckAlarm s a obs = .error x ↔ a.loopSince.isSome ∧ obs.resources.cpu.warming ∧ s.Overlong := by
  cases x
  rw [Settings.overlong_iff, stuckAlarm]
  cases a.loopSince with
  | none => simp
  | some since =>
    simp only
    split
    · rename_i hover
      simpa using hover
    · rename_i hover
      refine iff_of_false ?_ fun h => hover (by simpa using h.2)
      split <;> simp

theorem alarm_error_iff : alarm s (a.noteTimers obs) obs = .error x ↔
    ¬ obs.resources.leaking ∧ ¬ obs.strains ∧ obs.loops ∧ obs.resources.cpu.warming ∧ s.Overlong := by
  have hsince : (a.noteTimers obs).loopSince.isSome ↔ obs.loops := by
    cases hloop : obs.repetition.isLoopEvidence <;> simp [noteTimers, timer, Observation.loops, hloop]
  by_cases hleak : obs.resources.leaking
  · simp [alarm, hleak]
  rw [alarm, if_neg hleak]
  cases hrun : runawayAlarm s (a.noteTimers obs) obs with
  | some text =>
    have hload := (runawayAlarm_iff.mp ⟨text, hrun⟩).1
    simp [hload]
  | none =>
    have hrested (hloop : obs.loops) : ¬ obs.strains := fun hload => by
      obtain ⟨text, htext⟩ := runawayAlarm_iff.mpr ⟨hload, .inl hloop⟩
      rw [hrun] at htext
      cases htext
    rw [map_error, stuckAlarm_error_iff, hsince]
    exact ⟨fun h => ⟨hleak, hrested h.1, h⟩, fun h => h.2.2⟩

theorem observe_error_iff :
    observe s a obs = .error x ↔ ¬ a.state.isTerminal ∧ obs.AddsSpans ∧ s.Overlong := by
  by_cases ht : a.state.isTerminal
  · simp [observe_terminal ht, ht]
  by_cases hl : obs.liveness = .running
  · rw [observe_running ht hl, assessRunning, map_error, alarm_error_iff]
    constructor
    · rintro ⟨hleak, hload, hloop, hwarm, hover⟩
      exact ⟨ht, ⟨⟨hl, hleak, hload, hloop⟩, hwarm⟩, hover⟩
    · rintro ⟨-, h, hover⟩
      exact ⟨h.bounded, h.rested, h.loops, h.warming, hover⟩
  · refine iff_of_false ?_ fun h => hl h.2.1.running
    cases hlive : obs.liveness with
    | running => exact absurd hlive hl
    | groupEmpty => simp [observe_groupEmpty ht hlive]
    | parentGone n => simp [observe_parentGone ht hlive]

theorem call_error_iff : call s a c = .error x ↔
    s.Overlong ∧ ∃ obs, c = .observe obs ∧ obs.AddsSpans ∧ ¬ a.state.isTerminal := by
  cases c with
  | observe obs =>
    rw [call, observe_error_iff]
    constructor
    · rintro ⟨ht, h, hover⟩
      exact ⟨hover, obs, rfl, h, ht⟩
    · rintro ⟨hover, _, hobs, h, ht⟩
      cases hobs
      exact ⟨ht, h, hover⟩
  | reset | abandon => simp [call]

-- ---------------------------------------------------------------------------
-- Whole runs
-- ---------------------------------------------------------------------------

variable {calls : List Call}

theorem run_overflows_iff : run (call s) a calls = .error x ↔
    s.Overlong ∧ ∃ before obs after b, calls = before ++ .observe obs :: after ∧
      run (call s) a before = .ok b ∧ obs.AddsSpans ∧ ¬ b.state.isTerminal := by
  rw [run_error_iff]
  constructor
  · rintro ⟨before, c, after, b, hcalls, hbefore, hc⟩
    obtain ⟨hover, obs, rfl, hobs, ht⟩ := call_error_iff.mp hc
    exact ⟨hover, before, obs, after, b, hcalls, hbefore, hobs, ht⟩
  · rintro ⟨hover, before, obs, after, b, hcalls, hbefore, hobs, ht⟩
    exact ⟨before, _, after, b, hcalls, hbefore, call_error_iff.mpr ⟨hover, obs, rfl, hobs, ht⟩⟩

theorem answered_of_short (h : ¬ s.Overlong) (a : Assessor) (calls : List Call) :
    ∃ b, run (call s) a calls = .ok b := by
  cases hrun : run (call s) a calls with
  | ok b => exact ⟨b, rfl⟩
  | error x => exact absurd (run_overflows_iff.mp hrun).1 h

end Assessor

namespace Settings

variable {s : Settings}

theorem Accepted.short (h : s.Accepted) (hdwell : s.assessment.loopDwellSecs < 2 ^ 64 - 3600) :
    ¬ s.Overlong := by
  have hwindow := h.windowSecs_le
  unfold Overlong
  omega

theorem Fits.loopDwellSecs_lt (h : s.Fits) : s.assessment.loopDwellSecs < 2 ^ 63 := by
  have hfields := h assessmentSection (by simp [schema])
  exact (List.forall_mem_cons.mp (List.forall_mem_cons.mp hfields).2).1

end Settings

namespace Assessor

/-- Under settings from any file every call is answered, since no file carries a dwell that long; under accepted
settings from anywhere else, if the dwell falls an hour short of the longest duration. Otherwise a run breaks off
just where a loop and nothing worse is seen under a load whose window is not yet covered, and the dwell and the
CPU window exceed what a duration can hold. -/
theorem answered_unless_overlong (s : Settings) (hs : s.Accepted) (id : ProcessId) (calls : List Call) :
    (∀ path file, Settings.load path file = .ok s → ∃ a, run (call s) { process := id } calls = .ok a) ∧
    (s.assessment.loopDwellSecs < 2 ^ 64 - 3600 → ∃ a, run (call s) { process := id } calls = .ok a) ∧
    (run (call s) { process := id } calls = .error .overflow ↔
      s.Overlong ∧ ∃ before obs after a, calls = before ++ .observe obs :: after ∧
        run (call s) { process := id } before = .ok a ∧ obs.AddsSpans ∧ ¬ a.state.isTerminal) := by
  refine ⟨fun path file hload => ?_, fun hdwell => answered_of_short (hs.short hdwell) _ _, run_overflows_iff⟩
  have hdwell := (Settings.load_fits hload).2.loopDwellSecs_lt
  exact answered_of_short (hs.short (by omega)) _ _

def unending : Settings := { assessment := { loopDwellSecs := 18446744073709551615 } }

theorem looping_addsSpans (time : Nat) : (looping time true).AddsSpans :=
  ⟨⟨rfl, by simp [looping], by simp [looping, Observation.strains], rfl⟩, rfl⟩

theorem unending_breaks_off :
    (unending.Accepted ∧
      run (call unending) { process := ⟨1, 1⟩ } [.reset, .observe (looping 0 true)] = .error .overflow) ∧
    ({} : Settings).Accepted ∧ Settings.load "settings.toml" .missing = .ok {} ∧
      ∃ a, run (call {}) { process := ⟨1, 1⟩ } [.reset, .observe (looping 0 true)] = .ok a := by
  have hunending : unending.Accepted := by decide +kernel
  have hdefault : ({} : Settings).Accepted := by decide +kernel
  have hover : unending.Overlong := by decide
  refine ⟨⟨hunending, (answered_unless_overlong unending hunending ⟨1, 1⟩ _).2.2.mpr ?_⟩, hdefault, rfl,
    (answered_unless_overlong {} hdefault ⟨1, 1⟩ _).1 "settings.toml" .missing rfl⟩
  exact ⟨hover, [.reset], looping 0 true, [], { process := ⟨1, 1⟩ }, rfl, rfl, looping_addsSpans 0, by decide⟩

theorem unending_unanswered : ¬ ∀ s : Settings, s.Accepted → ∀ (id : ProcessId) (calls : List Call),
    ∃ a, run (call s) { process := id } calls = .ok a := by
  intro hclaim
  obtain ⟨a, ha⟩ := hclaim unending (by decide +kernel) ⟨1, 1⟩ [.observe (looping 0 true)]
  have hover : run (call unending) { process := ⟨1, 1⟩ } [.observe (looping 0 true)] = .error .overflow := by
    decide
  rw [hover] at ha
  cases ha

end Assessor

end Vigil
