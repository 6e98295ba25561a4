import Vigil.Proofs.Health.Ratchet

/-!
# Spent evidence

The readings of a workload support at most one alarm, besides that a loop of its lines supports the
mildest. A monitor is `Spent` if its state is an alarm at least as severe as its readings support. A tick
that raises an alarm leaves the monitor spent, and a spent monitor raises no further alarm until it gets
another reading or is reset.
-/

namespace Vigil

namespace Assessor

variable {s : Settings} {a b : Assessor} {obs : Observation} {d : Diagnosis}

/-- A severity that leaves these readings no room for a more severe alarm. -/
structure Exhausts (severity : Nat) (r : Resources) : Prop where
  raised : 1 ≤ severity
  leak : r.leaking → 3 ≤ severity
  load : r.cpu.verdict = .sustained → 2 ≤ severity

theorem Exhausts.mono {n k : Nat} {r : Resources} (h : Exhausts n r) (hle : n ≤ k) : Exhausts k r where
  raised := Nat.le_trans h.raised hle
  leak := fun hl => Nat.le_trans (h.leak hl) hle
  load := fun hl => Nat.le_trans (h.load hl) hle

theorem runawayAlarm_some (h : runawayAlarm s a obs = some evidence) :
    obs.resources.cpu.verdict = .sustained := by
  unfold runawayAlarm at h
  split at h
  · assumption
  · cases h

theorem runawayAlarm_none (h : runawayAlarm s a obs = none) (hl : obs.repetition.isLoopEvidence) :
    obs.resources.cpu.verdict ≠ .sustained := by
  intro hs
  simp [runawayAlarm, hs, hl] at h

theorem isLoopEvidence_of_stuckAlarm (h : stuckAlarm s (a.noteTimers obs) obs = .ok (some evidence)) :
    obs.repetition.isLoopEvidence := by
  cases hl : obs.repetition.isLoopEvidence with
  | true => rfl
  | false => simp [stuckAlarm, noteTimers, timer, hl] at h

/-- Which readings an alarm rests on. A loop is behind the mildest one only if the load is not
sustained. -/
theorem alarm_some (h : alarm s (a.noteTimers obs) obs = .ok (some (target, evidence))) :
    target = .leaking ∧ obs.resources.leaking ∨
      target = .runaway ∧ ¬ obs.resources.leaking ∧ obs.resources.cpu.verdict = .sustained ∨
      target = .stuck ∧ ¬ obs.resources.leaking ∧ obs.resources.cpu.verdict ≠ .sustained := by
  unfold alarm at h
  split at h
  · rename_i hleak
    cases h
    exact .inl ⟨rfl, hleak⟩
  · rename_i hleak
    split at h
    · rename_i hrun
      cases h
      exact .inr (.inl ⟨rfl, hleak, runawayAlarm_some hrun⟩)
    · rename_i hrun
      obtain ⟨found, hstuck, h⟩ := map_ok.mp h
      cases found with
      | none => cases h
      | some text =>
        cases h
        exact .inr (.inr ⟨rfl, hleak, runawayAlarm_none hrun (isLoopEvidence_of_stuckAlarm hstuck)⟩)

theorem exhausts_of_alarm (h : alarm s (a.noteTimers obs) obs = .ok (some (target, evidence))) :
    Exhausts target.severity obs.resources := by
  rcases alarm_some h with ⟨rfl, -⟩ | ⟨rfl, hleak, -⟩ | ⟨rfl, hleak, hload⟩
  · exact ⟨by decide, fun _ => by decide, fun _ => by decide⟩
  · exact ⟨by decide, fun hl => absurd hl hleak, fun _ => by decide⟩
  · exact ⟨by decide, fun hl => absurd hl hleak, fun hl => absurd hl hload⟩

theorem observe_exhausts (h : observe s a obs = .ok (b, some d)) (hd : d.target.isSticky) :
    Exhausts d.target.severity obs.resources := by
  cases observed h with
  | ended _ hr => cases (Prod.mk.inj hr).2
  | emptied _ _ he =>
    rw [enter_target he] at hd
    cases hd
  | orphaned _ _ he =>
    rw [enter_target he]
    exact ⟨by decide, fun _ => by decide, fun _ => by decide⟩
  | running _ _ hr =>
    obtain ⟨found, halarm, h⟩ := map_ok.mp hr
    cases found with
    | some found =>
      obtain ⟨target, evidence⟩ := found
      simp only at h
      split at h
      · cases h
      · rw [enter_target h]
        exact exhausts_of_alarm halarm
    | none =>
      simp only at h
      split at h
      · cases h
      · split at h
        · rw [enter_target h] at hd
          cases hd
        · rw [enter_target h] at hd
          cases hd
        · cases h

theorem observe_of_exhausts (hx : Exhausts a.state.severity obs.resources)
    (hl : obs.liveness = .running) (h : observe s a obs = .ok (b, out)) : out = none := by
  by_cases ht : a.state.isTerminal
  · rw [observe_terminal ht] at h
    cases h
    rfl
  · have hsticky : a.state.isSticky := by
      refine Classical.byContradiction fun hcalm => ?_
      have hzero := (Health.severity_eq_zero_iff a.state).mpr ⟨hcalm, ht⟩
      exact absurd hx.raised (by omega)
    rw [observe_running ht hl] at h
    obtain ⟨found, halarm, h⟩ := map_ok.mp h
    cases found with
    | none =>
      simp only [noteTimers_state, hsticky, ↓reduceIte] at h
      cases h
      rfl
    | some found =>
      obtain ⟨target, evidence⟩ := found
      have hmild : target.severity ≤ a.state.severity := by
        rcases alarm_some halarm with ⟨rfl, hleak⟩ | ⟨rfl, -, hload⟩ | ⟨rfl, -⟩
        · exact hx.leak hleak
        · exact hx.load hload
        · exact hx.raised
      simp only [noteTimers_state, hsticky, hmild, decide_true, Bool.and_self, ↓reduceIte] at h
      cases h
      rfl

end Assessor

-- ---------------------------------------------------------------------------
-- The monitor
-- ---------------------------------------------------------------------------

namespace Monitor

variable {s : Settings} {m m' : Monitor} {d : Diagnosis} {liveness : Liveness}

def resources (s : Settings) (m : Monitor) : Resources :=
  .evaluate s.cpu s.memory m.tracked.cpuSamples m.tracked.memSamples

def Spent (s : Settings) (m : Monitor) : Prop :=
  Assessor.Exhausts m.state.severity (m.resources s)

theorem tick_resources (h : m.tick s now liveness = .ok (m', out)) : m'.resources s = m.resources s := by
  obtain ⟨judged, -, hr⟩ := tick_eq_ok h
  obtain ⟨hcpu, hmem, -⟩ := conclude_evidence hr.symm
  rw [resources, hcpu, hmem]
  rfl

theorem resources_recordLine (m : Monitor) (time : Nat) (line : OutputLine) :
    (m.recordLine time line).resources s = m.resources s := by
  simp only [resources, recordLine, Tracked.recordLine]
  split <;> rfl

theorem Spent.mono (hs : m.Spent s) (hres : m'.resources s = m.resources s)
    (hle : m.state.severity ≤ m'.state.severity) : m'.Spent s := by
  unfold Spent
  rw [hres]
  exact Assessor.Exhausts.mono hs hle

theorem tick_keeps (h : m.tick s now liveness = .ok (m', out)) :
    m'.resources s = m.resources s ∧ m.state.severity ≤ m'.state.severity :=
  ⟨tick_resources h, Assessor.severity_le_of_call (c := .observe _) (by simp) (tick_observes h)⟩

theorem abandon_keeps (m : Monitor) (reason : String) (now : Nat) :
    (m.abandon reason now).1.resources s = m.resources s ∧
      m.state.severity ≤ (m.abandon reason now).1.state.severity := by
  have hr := (Prod.eta (m.abandon reason now)).symm
  obtain ⟨hcpu, hmem, -⟩ := conclude_evidence hr
  have hcall : Assessor.call s m.assessor (.abandon reason) = .ok (_, _) :=
    congrArg Except.ok (conclude_eq hr)
  exact ⟨by rw [resources, hcpu, hmem, resources], Assessor.severity_le_of_call (by simp) hcall⟩

theorem tick_spent (h : m.tick s now liveness = .ok (m', some d)) (hd : d.target.isSticky) :
    m'.Spent s := by
  unfold Spent
  rw [tick_resources h, ← (tick_judged h).target_eq rfl]
  exact Assessor.observe_exhausts (tick_observes h) hd

/-- A tick of a spent monitor says nothing while the process runs. -/
theorem Spent.silent (hs : m.Spent s) (h : m.tick s now .running = .ok (m', out)) : out = none := by
  have hx : Assessor.Exhausts m.assessor.state.severity
      (observation s (m.tracked.pruneLog now) now .running).resources := hs
  exact Assessor.observe_of_exhausts hx rfl (tick_observes h)

end Monitor

end Vigil
