import Vigil.Proofs.Evidence.Loops
import Vigil.Proofs.Evidence.Rings
import Vigil.Proofs.Health.Judgement

/-!
# Loops are noticed

A monitor takes lines, readings, ticks, resets and the order to give up, in any order.
`Monitor.loop_noticed`: if every tick of a stretch sees a window that loops, and the stretch is as long as
the dwell and a CPU window together, then at its end an alarm stands or the workload is given up or gone,
whatever else the ticks see.
-/

namespace Vigil

-- ---------------------------------------------------------------------------
-- The assessor
-- ---------------------------------------------------------------------------

namespace Assessor

variable {s : Settings} {a b : Assessor} {obs : Observation}

theorem mem_timer (h : since ∈ timer on time earlier) : since = time ∨ since ∈ earlier := by
  unfold timer at h
  split at h
  · cases earlier with
    | none => exact .inl (Option.some.inj h).symm
    | some _ => exact .inr h
  · cases h

theorem observe_loopSince (ht : ¬ a.state.isTerminal) (h : observe s a obs = .ok (b, out)) :
    b.loopSince = timer obs.repetition.isLoopEvidence obs.time a.loopSince := by
  obtain ⟨_, rfl⟩ := observe_eq ht h
  rfl

theorem stuckAlarm_long (hsince : a.loopSince = some since)
    (hlong : s.assessment.loopDwell + s.cpu.window ≤ obs.time - since)
    (h : stuckAlarm s a obs = .ok found) : ∃ text, found = some text := by
  have hdwell : s.assessment.loopDwell ≤ obs.time - since := by omega
  have hcovered : ¬ obs.time - since < s.assessment.loopDwell + s.cpu.window := by omega
  simp only [stuckAlarm, hsince] at h
  split at h
  · cases h
  · simp only [hdwell, hcovered, decide_true, decide_false, Bool.and_false, Bool.not_false, Bool.and_self,
      if_true] at h
    exact ⟨_, (Except.ok.inj h).symm⟩

theorem alarm_long (hsince : a.loopSince = some since)
    (hlong : s.assessment.loopDwell + s.cpu.window ≤ obs.time - since)
    (h : alarm s a obs = .ok found) : ∃ target evidence, found = some (target, evidence) := by
  unfold alarm at h
  split at h
  · exact ⟨_, _, (Except.ok.inj h).symm⟩
  · split at h
    · exact ⟨_, _, (Except.ok.inj h).symm⟩
    · obtain ⟨stuck, hstuck, rfl⟩ := map_ok.mp h
      obtain ⟨text, rfl⟩ := stuckAlarm_long hsince hlong hstuck
      exact ⟨.stuck, text, rfl⟩

theorem observe_long (hloop : obs.repetition.isLoopEvidence)
    (hlong : s.assessment.loopDwell + s.cpu.window ≤ obs.time - a.loopSince.getD obs.time)
    (h : observe s a obs = .ok (b, out)) : 1 ≤ b.state.severity := by
  cases observed h with
  | ended ht hr =>
    cases hr
    rw [Health.severity_of_terminal ht]
    decide
  | emptied _ _ he | orphaned _ _ he =>
    rw [enter_state he]
    decide
  | running _ _ hr =>
    obtain ⟨found, halarm, h⟩ := map_ok.mp hr
    have hsince : (a.noteTimers obs).loopSince = some (a.loopSince.getD obs.time) := by
      simp [noteTimers, timer, hloop]
    obtain ⟨target, evidence, rfl⟩ := alarm_long hsince hlong halarm
    simp only at h
    split at h
    · rename_i hstands
      simp only [noteTimers_state, Bool.and_eq_true] at hstands
      cases h
      exact (Health.severity_of_sticky hstands.1).1
    · rw [enter_state h]
      rcases alarm_target halarm with rfl | rfl | rfl <;> decide

end Assessor

-- ---------------------------------------------------------------------------
-- One call
-- ---------------------------------------------------------------------------

namespace Monitor

inductive Call where
  | line (time : Nat) (text : String)
  | reading (time : Nat) (cpuPercent : Float) (residentBytes : Nat)
  | tick (now : Nat) (liveness : Liveness)
  | reset (now : Nat)
  | abandon (reason : String) (now : Nat)
  deriving DecidableEq

def call (s : Settings) (m : Monitor) : Call → Except SpanOverflow (Monitor × Option Diagnosis)
  | .line time text => .ok (m.recordLine time (.of text), none)
  | .reading time cpuPercent residentBytes => .ok (m.recordSample time cpuPercent residentBytes, none)
  | .tick now liveness => m.tick s now liveness
  | .reset now => .ok (m.reset now)
  | .abandon reason now => .ok (m.abandon reason now)

abbrev CallStep := Step Monitor Call (Option Diagnosis)

def SeesLoop (s : Settings) (t : CallStep) : Prop :=
  match t.event with
  | .tick now _ => Repetition.Looping s.logs (t.before.tracked.logWindow.prune now)
  | _ => True

instance : DecidablePred (SeesLoop s) := fun
  | ⟨m, .tick now _, _, _⟩ =>
    inferInstanceAs (Decidable (Repetition.Looping s.logs (m.tracked.logWindow.prune now)))
  | ⟨_, .line .., _, _⟩ | ⟨_, .reading .., _, _⟩ | ⟨_, .reset _, _, _⟩ | ⟨_, .abandon .., _, _⟩ =>
    .isTrue trivial

variable {s : Settings} {m m' : Monitor} {c : Call} {t : CallStep} {tracked : Tracked} {t₀ now : Nat}

theorem call_error (h : call s m c = .error x) :
    Settings.spanLimit ≤ s.assessment.loopDwell + s.cpu.window := by
  cases c with
  | tick now liveness => exact tick_error h
  | _ => cases h

def Bounded (s : Settings) (m : Monitor) : Prop := m.tracked.logWindow.Holds s.logs.windowLines

theorem start_bounded (s : Settings) (id : ProcessId) (begun : Nat) : (start s id begun).Bounded s :=
  Ring.holds_empty _ _

theorem call_bounded (hb : m.Bounded s) (h : call s m c = .ok (m', out)) : m'.Bounded s := by
  unfold Bounded at hb ⊢
  cases c with
  | line time text =>
    cases h
    simp only [recordLine, Tracked.recordLine]
    split
    · exact hb.push _ _
    · exact hb
  | reading time cpuPercent residentBytes =>
    cases h
    simp only [recordSample, Tracked.recordSample]
    split <;> exact hb
  | tick now liveness =>
    obtain ⟨judged, -, hr⟩ := tick_eq_ok h
    rw [(conclude_evidence hr.symm).2.2]
    exact hb.prune now
  | reset now =>
    rw [(conclude_evidence (Except.ok.inj h)).2.2]
    exact hb.clear
  | abandon reason now =>
    rw [(conclude_evidence (Except.ok.inj h)).2.2]
    exact hb

theorem Bounded.isLoopEvidence (hb : m.Bounded s) (hs : s.Accepted)
    (h : Repetition.Looping s.logs (m.tracked.logWindow.prune now)) :
    (Repetition.detect s.logs (m.tracked.logWindow.prune now)).isLoopEvidence := by
  have hsize := (hb.prune now).size_le
  have hlines := hs.windowLines_le
  exact h.isLoopEvidence (Count.log2_le (by omega)) hs.fuzzyThreshold_le

-- ---------------------------------------------------------------------------
-- The timer of the loop
-- ---------------------------------------------------------------------------

def loopTimer (s : Settings) (m : Monitor) (c : Call) : Option Nat :=
  if m.state.isTerminal then m.assessor.loopSince
  else
    match c with
    | .tick now _ =>
      Assessor.timer (Repetition.detect s.logs (m.tracked.logWindow.prune now)).isLoopEvidence now
        m.assessor.loopSince
    | .reset _ => none
    | _ => m.assessor.loopSince

theorem call_loopSince (h : call s m c = .ok (m', out)) : m'.assessor.loopSince = m.loopTimer s c := by
  unfold loopTimer
  cases c with
  | line | reading =>
    cases h
    split <;> rfl
  | tick now liveness =>
    have ho := tick_observes h
    split
    · rename_i ht
      rw [Assessor.observe_terminal ht] at ho
      rw [← (Prod.mk.inj (Except.ok.inj ho)).1]
    · rename_i ht
      exact Assessor.observe_loopSince ht ho
  | reset now =>
    have hr := conclude_eq (Except.ok.inj h)
    unfold Assessor.reset at hr
    split at hr
    · rename_i ht
      rw [if_pos (show m.state.isTerminal from ht), (Prod.mk.inj hr).1]
    · rename_i ht
      rw [if_neg (show ¬ m.state.isTerminal from ht), Assessor.enter_eq hr]
  | abandon reason now =>
    have hr := conclude_eq (Except.ok.inj h)
    unfold Assessor.abandon at hr
    split at hr
    · rename_i ht
      rw [if_pos (show m.state.isTerminal from ht), (Prod.mk.inj hr).1]
    · rename_i ht
      rw [if_neg (show ¬ m.state.isTerminal from ht), Assessor.enter_eq hr]

theorem call_terminal (ht : m.state.isTerminal) (h : call s m c = .ok (m', out)) :
    m'.state.isTerminal := by
  cases c with
  | line | reading => cases h; exact ht
  | tick now liveness =>
    have ho := tick_observes h
    rw [Assessor.observe_terminal ht] at ho
    rw [state, ← (Prod.mk.inj (Except.ok.inj ho)).1]
    exact ht
  | reset now =>
    have hsame := (if_pos ht).symm.trans (conclude_eq (Except.ok.inj h))
    rw [state, ← (Prod.mk.inj hsame).1]
    exact ht
  | abandon reason now =>
    have hsame := (if_pos ht).symm.trans (conclude_eq (Except.ok.inj h))
    rw [state, ← (Prod.mk.inj hsame).1]
    exact ht

/-- The timer of the loop does not run from a later time than `t₀`. -/
def NotAfter (t₀ : Nat) (m : Monitor) : Prop := ∀ since ∈ m.assessor.loopSince, since ≤ t₀

/-- The timer of the loop runs, from `t₀` at the latest, unless the workload is given up or gone. -/
def TimedFrom (t₀ : Nat) (m : Monitor) : Prop :=
  m.state.isTerminal ∨ ∃ since ∈ m.assessor.loopSince, since ≤ t₀

theorem call_notAfter (hm : m.NotAfter t₀) (htick : ∀ now liveness, c = .tick now liveness → now ≤ t₀)
    (h : call s m c = .ok (m', out)) : m'.NotAfter t₀ := by
  intro since hsince
  rw [call_loopSince h] at hsince
  unfold loopTimer at hsince
  split at hsince
  · exact hm since hsince
  · split at hsince
    · rcases Assessor.mem_timer hsince with rfl | hrun
      · exact htick _ _ rfl
      · exact hm since hrun
    · cases hsince
    · exact hm since hsince

theorem call_timedFrom (hm : m.TimedFrom t₀) (hreset : ∀ now, c ≠ .reset now)
    (hloop : ∀ now liveness, c = .tick now liveness →
      (Repetition.detect s.logs (m.tracked.logWindow.prune now)).isLoopEvidence)
    (h : call s m c = .ok (m', out)) : m'.TimedFrom t₀ := by
  by_cases ht : m.state.isTerminal
  · exact .inl (call_terminal ht h)
  · obtain ⟨since, hsince, hle⟩ := hm.resolve_left ht
    refine .inr ⟨since, ?_, hle⟩
    rw [call_loopSince h]
    unfold loopTimer
    rw [if_neg ht]
    cases c with
    | tick now liveness =>
      simp only [Assessor.timer, hloop now liveness rfl, if_true, Option.mem_def.mp hsince]
      rfl
    | reset now => exact absurd rfl (hreset now)
    | _ => exact hsince

theorem tick_timedFrom (hm : m.NotAfter now)
    (hloop : (Repetition.detect s.logs (m.tracked.logWindow.prune now)).isLoopEvidence)
    (h : call s m (.tick now liveness) = .ok (m', out)) : m'.TimedFrom now := by
  by_cases ht : m.state.isTerminal
  · exact .inl (call_terminal ht h)
  · refine .inr ⟨m.assessor.loopSince.getD now, ?_, ?_⟩
    · rw [call_loopSince h]
      simp [loopTimer, ht, Assessor.timer, hloop]
    · cases hrun : m.assessor.loopSince with
      | none => exact Nat.le_refl now
      | some since => exact hm since hrun

theorem tick_long {tₙ : Nat} (hm : m.TimedFrom t₀)
    (hloop : (Repetition.detect s.logs (m.tracked.logWindow.prune tₙ)).isLoopEvidence)
    (hlong : s.assessment.loopDwell + s.cpu.window ≤ tₙ - t₀)
    (h : call s m (.tick tₙ liveness) = .ok (m', out)) : 1 ≤ m'.state.severity := by
  by_cases ht : m.state.isTerminal
  · rw [Health.severity_of_terminal (call_terminal ht h)]
    decide
  · obtain ⟨since, hsince, hle⟩ := hm.resolve_left ht
    have ho := tick_observes h
    refine Assessor.observe_long hloop ?_ ho
    rw [Option.mem_def.mp hsince]
    show _ ≤ tₙ - since
    omega

-- ---------------------------------------------------------------------------
-- Whole runs
-- ---------------------------------------------------------------------------

theorem path_bounded (hp : Path (call s) m ts m') (hb : m.Bounded s) : m'.Bounded s :=
  hp.preserves hb fun _ _ ht hbefore => call_bounded hbefore ht

theorem path_notAfter (hp : Path (call s) m ts m') (hm : m.NotAfter t₀)
    (htick : ∀ t ∈ ts, ∀ now liveness, t.event = .tick now liveness → now ≤ t₀) : m'.NotAfter t₀ :=
  hp.preserves hm fun t ht hof hbefore => call_notAfter hbefore (htick t ht) hof

theorem path_timedFrom (hs : s.Accepted) (hp : Path (call s) m ts m') (hb : m.Bounded s)
    (hm : m.TimedFrom t₀) (hreset : ∀ t ∈ ts, ∀ now, t.event ≠ .reset now)
    (hloop : ∀ t ∈ ts, SeesLoop s t) : m'.Bounded s ∧ m'.TimedFrom t₀ := by
  refine hp.preserves (P := fun v => v.Bounded s ∧ v.TimedFrom t₀) ⟨hb, hm⟩ ?_
  rintro t ht hof ⟨hbounded, htimed⟩
  refine ⟨call_bounded hbounded hof, call_timedFrom htimed (hreset t ht) ?_ hof⟩
  intro now liveness he
  have hsees := hloop t ht
  rw [SeesLoop, he] at hsees
  exact hbounded.isLoopEvidence hs hsees

/-- No loop goes unnoticed. Under accepted settings, if each tick of a stretch without a reset sees a full
window of lines of one shape, fewer than half of which tell of progress, and the stretch is as long as the
dwell and a CPU window together, then at its end the state is an alarm or terminal. A run can break off
before only if the stretch is longer than any duration. -/
theorem loop_noticed {s : Settings} (hs : s.Accepted) (id : ProcessId) (begun t₀ tₙ : Nat)
    (l₀ lₙ : Liveness) (earlier between : List Call) {m : Monitor}
    (hrun : run (call s) (start s id begun) earlier = .ok m)
    (horder : ∀ now liveness, .tick now liveness ∈ earlier → now ≤ t₀)
    (hreset : ∀ now, .reset now ∉ between)
    (hloop : ∀ t ∈ steps (call s) m (.tick t₀ l₀ :: between ++ [.tick tₙ lₙ]), SeesLoop s t)
    (hlong : s.assessment.loopDwell + s.cpu.window ≤ tₙ - t₀) :
    match run (call s) m (.tick t₀ l₀ :: between ++ [.tick tₙ lₙ]) with
    | .ok m' => 1 ≤ m'.state.severity
    | .error _ => Settings.spanLimit ≤ tₙ - t₀ := by
  split
  · rename_i m' hstretch
    obtain ⟨v, hbetween, hlast⟩ := run_append_ok.mp hstretch
    obtain ⟨u, out, hfirst, hmid⟩ := run_cons_ok.mp hbetween
    obtain ⟨m'', out', htick, hend⟩ := run_cons_ok.mp hlast
    cases hend
    have hb : m.Bounded s := path_bounded (path_of_run hrun) (start_bounded s id begun)
    have hnot : m.NotAfter t₀ := by
      refine path_notAfter (path_of_run hrun) (by simp [NotAfter, start]) ?_
      intro t ht now liveness he
      exact horder now liveness (he ▸ event_mem_of_mem_steps ht)
    rw [steps_append hbetween, steps_cons hfirst, steps_cons htick] at hloop
    have hsees : SeesLoop s ⟨m, .tick t₀ l₀, out, u⟩ := hloop _ (by simp)
    have htimed := tick_timedFrom hnot (hb.isLoopEvidence hs hsees) hfirst
    have hmids : ∀ t ∈ steps (call s) u between, SeesLoop s t := fun t ht => hloop t (by simp [ht])
    obtain ⟨hb', htimed'⟩ := path_timedFrom hs (path_of_run hmid) (call_bounded hb hfirst) htimed
      (fun t ht now he => hreset now (he ▸ event_mem_of_mem_steps ht)) hmids
    have hsees' : SeesLoop s ⟨v, .tick tₙ lₙ, out', m'⟩ := hloop _ (by simp)
    exact tick_long htimed' (hb'.isLoopEvidence hs hsees') hlong htick
  · rename_i hbreaks
    obtain ⟨_, _, -, hx⟩ := breaks_of_run hbreaks
    exact Nat.le_trans (call_error hx) hlong

/-- Settings under which two lines fill the window and two seconds of them are too many. -/
def brisk : Settings :=
  { logs := { windowLines := 2, minLines := 1 }, cpu := { windowSecs := 1 },
    assessment := { loopDwellSecs := 1 } }

def retrying : Monitor :=
  ((start brisk ⟨1, 1⟩ 0).recordLine 200 (.of "attempt 1: no answer from 0x1f")).recordLine 600
    (.of "attempt 2: no answer from 0x2e")

theorem retrying_noticed :
    ∃ m, run (call brisk) retrying
        [.tick 1000 .running, .line 1400 "attempt 3: no answer from 0x3d", .reading 1800 99 4096,
          .tick 2000 .running, .tick 3000 .running] = .ok m ∧ 1 ≤ m.state.severity := by
  have h := loop_noticed (s := brisk) (by decide +kernel) ⟨1, 1⟩ 0 1000 3000 .running .running
    [.line 200 "attempt 1: no answer from 0x1f", .line 600 "attempt 2: no answer from 0x2e"]
    [.line 1400 "attempt 3: no answer from 0x3d", .reading 1800 99 4096, .tick 2000 .running]
    (m := retrying) rfl (by simp) (by simp) (by decide +kernel) (by decide)
  split at h
  · rename_i m hrun
    exact ⟨m, hrun, h⟩
  · exact absurd h (by decide)

end Monitor

end Vigil
