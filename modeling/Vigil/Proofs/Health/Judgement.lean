import Vigil.Health.Monitor
import Vigil.Proofs.Steps

/-!
# What a judgement can come to

`Assessor.Judged` says what holds of every result, whichever way it was reached: nothing changes and
nothing is said, or a state that is not terminal gives way to another and the diagnosis names both. The
other lemmas tell which states each operation can lead to, and when a judgement cannot be made.
-/

namespace Vigil

-- ---------------------------------------------------------------------------
-- States
-- ---------------------------------------------------------------------------

namespace Health

theorem severity_le (h : Health) : h.severity ≤ 5 := by
  cases h <;> decide

theorem severity_eq_zero_iff (h : Health) : h.severity = 0 ↔ ¬ h.isSticky ∧ ¬ h.isTerminal := by
  cases h <;> decide

theorem severity_of_sticky {h : Health} (hs : h.isSticky) : 0 < h.severity ∧ h.severity < 5 := by
  revert hs
  cases h <;> decide

theorem severity_of_terminal {h : Health} (ht : h.isTerminal) : h.severity = 5 := by
  revert ht
  cases h <;> decide

theorem not_terminal_of_sticky {h : Health} (hs : h.isSticky) : ¬ h.isTerminal := by
  revert hs
  cases h <;> decide

end Health

-- ---------------------------------------------------------------------------
-- The assessor
-- ---------------------------------------------------------------------------

namespace Assessor

inductive Judged (a : Assessor) : Assessor × Option Diagnosis → Prop
  | stays {b} : b.process = a.process → b.state = a.state → Judged a (b, none)
  | turns {b d} : b.process = a.process → ¬ a.state.isTerminal → d.process = a.process →
      d.source = a.state → d.target = b.state → d.source ≠ d.target → Judged a (b, some d)

variable {s : Settings} {a b : Assessor} {obs : Observation} {d : Diagnosis}

theorem Judged.of_same (h : Judged a' r) (hp : a'.process = a.process) (hs : a'.state = a.state) :
    Judged a r := by
  cases h with
  | stays hp' hs' => exact .stays (hp'.trans hp) (hs'.trans hs)
  | turns hp' ht hd hsrc htgt hne =>
    exact .turns (hp'.trans hp) (hs ▸ ht) (hd.trans hp) (hsrc.trans hs) htgt hne

theorem enter_judged (ht : ¬ a.state.isTerminal) : Judged a (enter a target evidence) := by
  unfold enter
  split
  · exact .stays rfl rfl
  · rename_i hne
    exact .turns rfl ht rfl rfl rfl (Ne.symm hne)

theorem enter_target (h : enter a target evidence = (b, some d)) : d.target = target := by
  unfold enter at h
  split at h <;> cases h
  rfl

theorem enter_eq (h : enter a target evidence = (b, out)) : b = { a with state := target } := by
  unfold enter at h
  split at h
  · rename_i hsame
    cases h
    rw [hsame]
  · cases h
    rfl

theorem enter_state (h : enter a target evidence = (b, out)) : b.state = target := by
  rw [enter_eq h]

@[simp] theorem noteTimers_state : (noteTimers a obs).state = a.state := rfl
@[simp] theorem noteTimers_process : (noteTimers a obs).process = a.process := rfl

theorem observe_terminal (ht : a.state.isTerminal) : observe s a obs = .ok (a, none) := by
  simp [observe, ht]

theorem observe_groupEmpty (ht : ¬ a.state.isTerminal) (hl : obs.liveness = .groupEmpty) :
    observe s a obs = .ok ((a.noteTimers obs).enter .gone (groupEmptyText a.process)) := by
  simp [observe, ht, hl]

theorem observe_parentGone (ht : ¬ a.state.isTerminal) (hl : obs.liveness = .parentGone n) :
    observe s a obs = .ok ((a.noteTimers obs).enter .zombie (orphanText a.process n)) := by
  simp [observe, ht, hl]

theorem observe_running (ht : ¬ a.state.isTerminal) (hl : obs.liveness = .running) :
    observe s a obs = assessRunning s (a.noteTimers obs) obs := by
  simp [observe, ht, hl]

inductive Observed (s : Settings) (a : Assessor) (obs : Observation) (r : Assessor × Option Diagnosis) :
    Prop
  | ended : a.state.isTerminal → r = (a, none) → Observed s a obs r
  | emptied : ¬ a.state.isTerminal → obs.liveness = .groupEmpty →
      (a.noteTimers obs).enter .gone (groupEmptyText a.process) = r → Observed s a obs r
  | orphaned {n} : ¬ a.state.isTerminal → obs.liveness = .parentGone n →
      (a.noteTimers obs).enter .zombie (orphanText a.process n) = r → Observed s a obs r
  | running : ¬ a.state.isTerminal → obs.liveness = .running →
      assessRunning s (a.noteTimers obs) obs = .ok r → Observed s a obs r

theorem observed (h : observe s a obs = .ok r) : Observed s a obs r := by
  by_cases ht : a.state.isTerminal
  · rw [observe_terminal ht] at h
    exact .ended ht (Except.ok.inj h).symm
  · cases hl : obs.liveness with
    | groupEmpty =>
      rw [observe_groupEmpty ht hl] at h
      exact .emptied ht hl (Except.ok.inj h)
    | parentGone n =>
      rw [observe_parentGone ht hl] at h
      exact .orphaned ht hl (Except.ok.inj h)
    | running =>
      rw [observe_running ht hl] at h
      exact .running ht hl h

theorem alarm_target (h : alarm s a obs = .ok (some (target, evidence))) :
    target = .leaking ∨ target = .runaway ∨ target = .stuck := by
  unfold alarm at h
  split at h
  · cases h; exact .inl rfl
  · split at h
    · cases h; exact .inr (.inl rfl)
    · simp only [map_ok, Option.map_eq_some_iff, Prod.mk.injEq] at h
      obtain ⟨found, -, _, -, rfl, -⟩ := h
      exact .inr (.inr rfl)

theorem assessRunning_judged (ht : ¬ a.state.isTerminal) (h : assessRunning s a obs = .ok r) :
    Judged a r := by
  obtain ⟨found, -, rfl⟩ := map_ok.mp h
  split
  · split
    · exact .stays rfl rfl
    · exact enter_judged ht
  · split
    · exact .stays rfl rfl
    · split
      · exact enter_judged ht
      · exact enter_judged ht
      · exact .stays rfl rfl

theorem assessRunning_eq (h : assessRunning s a obs = .ok (b, out)) :
    ∃ state, b = { a with state } := by
  obtain ⟨found, -, h⟩ := map_ok.mp h
  split at h
  · split at h
    · cases h
      exact ⟨a.state, rfl⟩
    · exact ⟨_, enter_eq h⟩
  · split at h
    · cases h
      exact ⟨a.state, rfl⟩
    · split at h
      · exact ⟨_, enter_eq h⟩
      · exact ⟨_, enter_eq h⟩
      · cases h
        exact ⟨a.state, rfl⟩

/-- A judgement brings the timers up to the observation, and nothing else of the assessor but its state
changes. -/
theorem observe_eq (ht : ¬ a.state.isTerminal) (h : observe s a obs = .ok (b, out)) :
    ∃ state, b = { a.noteTimers obs with state } := by
  cases observed h with
  | ended hterm => exact absurd hterm ht
  | emptied _ _ he | orphaned _ _ he => exact ⟨_, enter_eq he⟩
  | running _ _ hr => exact assessRunning_eq hr

/-- While the process runs, its state becomes a calm one or an alarm that evidence raises; a standing
alarm only gives way to a more severe one. -/
theorem assessRunning_target (h : assessRunning s a obs = .ok (b, some d)) :
    ¬ d.target.isTerminal ∧ d.target ≠ .zombie ∧
      (a.state.isSticky → a.state.severity < d.target.severity) := by
  obtain ⟨found, ha, h⟩ := map_ok.mp h
  split at h
  · rename_i target evidence
    split at h
    · cases h
    · rename_i hesc
      rw [enter_target h]
      have hkind := alarm_target ha
      refine ⟨?_, ?_, ?_⟩
      · rcases hkind with rfl | rfl | rfl <;> decide
      · rcases hkind with rfl | rfl | rfl <;> decide
      · intro hs
        simpa [hs] using hesc
  · split at h
    · cases h
    · rename_i hcalm
      have hcalm : a.state.isSticky → a.state.severity < d.target.severity :=
        fun hs => absurd hs hcalm
      split at h
      · rw [enter_target h] at hcalm ⊢
        exact ⟨by decide, by decide, hcalm⟩
      · rw [enter_target h] at hcalm ⊢
        exact ⟨by decide, by decide, hcalm⟩
      · cases h

theorem enter_zombie_iff (h : enter a .zombie evidence = (b, out)) :
    (∃ d ∈ out, d.target = .zombie) ↔ a.state ≠ .zombie := by
  unfold enter at h
  split at h
  · rename_i heq
    cases h
    simp [← heq]
  · rename_i hne
    cases h
    simpa using Ne.symm hne

theorem observe_zombie_iff (h : observe s a obs = .ok (b, out)) :
    (∃ d ∈ out, d.target = .zombie) ↔
      (∃ n, obs.liveness = .parentGone n) ∧ ¬ a.state.isTerminal ∧ a.state ≠ .zombie := by
  cases observed h with
  | ended ht hr =>
    cases hr
    simp [ht]
  | emptied _ hl he =>
    have hgone : ∀ d ∈ out, d.target ≠ .zombie := by
      rintro d rfl
      rw [enter_target he]
      decide
    simpa [hl] using hgone
  | orphaned ht hl he =>
    rw [enter_zombie_iff he]
    simp [ht, hl]
  | running _ hl hr =>
    have hraised : ∀ d ∈ out, d.target ≠ .zombie := by
      rintro d rfl
      exact (assessRunning_target hr).2.1
    simpa [hl] using hraised

theorem observe_judged (h : observe s a obs = .ok r) : Judged a r := by
  cases observed h with
  | ended _ hr =>
    rw [hr]
    exact .stays rfl rfl
  | emptied ht _ he | orphaned ht _ he =>
    rw [← he]
    exact (enter_judged (a := a.noteTimers obs) ht).of_same rfl rfl
  | running ht _ hr => exact (assessRunning_judged (a := a.noteTimers obs) ht hr).of_same rfl rfl

theorem reset_judged : Judged a a.reset := by
  unfold reset
  split
  · exact .stays rfl rfl
  · rename_i ht
    refine Judged.of_same (enter_judged ?_) rfl rfl
    exact ht

theorem reset_target (h : a.reset = (b, some d)) : d.target = .healthy := by
  unfold reset at h
  split at h
  · cases h
  · exact enter_target h

theorem abandon_judged : Judged a (a.abandon reason) := by
  unfold abandon
  split
  · exact .stays rfl rfl
  · rename_i ht
    exact enter_judged ht

theorem abandon_target (h : a.abandon reason = (b, some d)) : d.target = .unreapable := by
  unfold abandon at h
  split at h
  · cases h
  · exact enter_target h

-- ---------------------------------------------------------------------------
-- Judgements that cannot be made
-- ---------------------------------------------------------------------------

theorem stuckAlarm_error (h : stuckAlarm s a obs = .error x) :
    Settings.spanLimit ≤ s.assessment.loopDwell + s.cpu.window := by
  unfold stuckAlarm at h
  split at h
  · cases h
  · simp only at h
    split at h
    · rename_i hover
      simp only [Bool.and_eq_true, decide_eq_true_eq] at hover
      exact hover.2
    · split at h <;> cases h

theorem alarm_error (h : alarm s a obs = .error x) :
    Settings.spanLimit ≤ s.assessment.loopDwell + s.cpu.window := by
  unfold alarm at h
  split at h
  · cases h
  · split at h
    · cases h
    · exact stuckAlarm_error (map_error.mp h)

/-- A judgement fails only if the spans that it adds exceed what a duration can hold. -/
theorem observe_error (h : observe s a obs = .error x) :
    Settings.spanLimit ≤ s.assessment.loopDwell + s.cpu.window := by
  by_cases ht : a.state.isTerminal
  · rw [observe_terminal ht] at h
    cases h
  · cases hl : obs.liveness with
    | groupEmpty => rw [observe_groupEmpty ht hl] at h; cases h
    | parentGone n => rw [observe_parentGone ht hl] at h; cases h
    | running =>
      rw [observe_running ht hl] at h
      exact alarm_error (map_error.mp h)

end Assessor

-- ---------------------------------------------------------------------------
-- The monitor
-- ---------------------------------------------------------------------------

namespace Monitor

inductive Judged (m : Monitor) : Monitor × Option Diagnosis → Prop
  | stays {m'} : m'.state = m.state → m'.tracked.state = m.tracked.state → Judged m (m', none)
  | turns {m' d} : ¬ m.state.isTerminal → d.process = m.assessor.process → d.source = m.state →
      d.target = m'.state → d.target = m'.tracked.state → d.source ≠ d.target → Judged m (m', some d)

variable {s : Settings} {m m' : Monitor} {tracked : Tracked} {d : Diagnosis} {liveness : Liveness}

theorem Judged.target_eq (hj : m.Judged r) (hd : r.2 = some d) : d.target = r.1.state := by
  cases hj with
  | stays => cases hd
  | turns _ _ _ htgt _ _ => cases hd; exact htgt

@[simp] theorem recordLine_tracked_state (m : Monitor) :
    (m.recordLine time l).tracked.state = m.tracked.state := by
  simp only [recordLine, Tracked.recordLine]
  split <;> rfl

@[simp] theorem recordSample_tracked_state (m : Monitor) :
    (m.recordSample time cpu resident).tracked.state = m.tracked.state := by
  simp only [recordSample, Tracked.recordSample]
  split <;> rfl

theorem conclude_judged (h : m.assessor.Judged r)
    (ht : tracked.state = m.tracked.state) : Judged m (conclude tracked now r) := by
  cases h with
  | stays _ hs => exact .stays hs ht
  | turns _ hterm hproc hsrc htgt hne => exact .turns hterm hproc hsrc htgt rfl hne

theorem tick_eq_ok (h : m.tick s now liveness = .ok r) :
    ∃ judged, m.assessor.observe s (observation s (m.tracked.pruneLog now) now liveness) = .ok judged ∧
      r = conclude (m.tracked.pruneLog now) now judged := by
  obtain ⟨judged, ho, rfl⟩ := map_ok.mp h
  exact ⟨judged, ho, rfl⟩

theorem tick_judged (h : m.tick s now liveness = .ok r) : Judged m r := by
  obtain ⟨judged, ho, rfl⟩ := tick_eq_ok h
  exact conclude_judged (Assessor.observe_judged ho) rfl

theorem conclude_eq (h : conclude tracked now r = (m', out)) : r = (m'.assessor, out) := by
  obtain ⟨a, judged⟩ := r
  cases judged with
  | none => cases h; rfl
  | some d => cases h; rfl

theorem conclude_evidence (h : conclude tracked now r = (m', out)) :
    m'.tracked.cpuSamples = tracked.cpuSamples ∧ m'.tracked.memSamples = tracked.memSamples ∧
      m'.tracked.logWindow = tracked.logWindow := by
  obtain ⟨a, judged⟩ := r
  cases judged with
  | none => cases h; exact ⟨rfl, rfl, rfl⟩
  | some d => cases h; exact ⟨rfl, rfl, rfl⟩

/-- What a tick makes of the assessor, and what it says, is the judgement of what there is to see. -/
theorem tick_observes (h : m.tick s now liveness = .ok (m', out)) :
    m.assessor.observe s (observation s (m.tracked.pruneLog now) now liveness) =
      .ok (m'.assessor, out) := by
  obtain ⟨judged, ho, hr⟩ := tick_eq_ok h
  rw [ho, conclude_eq hr.symm]

theorem reset_judged : Judged m (m.reset now) := conclude_judged Assessor.reset_judged rfl

theorem abandon_judged : Judged m (m.abandon reason now) :=
  conclude_judged Assessor.abandon_judged rfl

theorem conclude_diagnosis : (conclude tracked now r).2 = r.2 := by
  obtain ⟨a, out⟩ := r
  cases out <;> rfl

theorem reset_target (h : (m.reset now).2 = some d) : d.target = .healthy := by
  rw [reset, conclude_diagnosis] at h
  exact Assessor.reset_target (Prod.ext rfl h)

theorem abandon_target (h : (m.abandon reason now).2 = some d) : d.target = .unreapable := by
  rw [abandon, conclude_diagnosis] at h
  exact Assessor.abandon_target (Prod.ext rfl h)

theorem tick_running_target (h : m.tick s now .running = .ok (m', some d)) :
    ¬ d.target.isTerminal ∧ d.target ≠ .zombie := by
  cases Assessor.observed (tick_observes h) with
  | ended _ hr => cases (Prod.mk.inj hr).2
  | emptied _ hl | orphaned _ hl => cases hl
  | running _ _ hr =>
    have htgt := Assessor.assessRunning_target hr
    exact ⟨htgt.1, htgt.2.1⟩

theorem tick_zombie_iff (h : m.tick s now liveness = .ok (m', out)) :
    (∃ d ∈ out, d.target = .zombie) ↔
      (∃ n, liveness = .parentGone n) ∧ ¬ m.state.isTerminal ∧ m.state ≠ .zombie :=
  Assessor.observe_zombie_iff (tick_observes h)

theorem tick_error (h : m.tick s now liveness = .error x) :
    Settings.spanLimit ≤ s.assessment.loopDwell + s.cpu.window :=
  Assessor.observe_error (map_error.mp h)

end Monitor

end Vigil
