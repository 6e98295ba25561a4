import Vigil.Proofs.Health.Acts

/-!
# A reset forgets the lines before it

The last line survives a reset, and so do the readings. Two workloads are `Tracked.Alike` if they differ in
nothing that a judgement looks at: the last line counts only while there are lines in the window, since an
empty window is no evidence of a loop. Acts keep workloads alike and say the same of both, and a reset makes
them alike whatever their lines were. `Monitor.reset_forgets_lines` puts this together for whole runs.
-/

namespace Vigil

-- ---------------------------------------------------------------------------
-- The last line
-- ---------------------------------------------------------------------------

namespace Repetition

variable {κ : Type} [DecidableEq κ] {s : Settings.Logs} {window : Ring (Fingerprint κ)}

theorem not_isLoopEvidence_of_empty (h : window.entries = []) : ¬ (detect s window).isLoopEvidence := by
  have hvalues : window.values = [] := by rw [Ring.values, h, List.map_nil]
  unfold detect
  split
  · rw [hvalues]
    simp [ofLines, KeyGroup.dominant?, unjudged, isLoopEvidence]
  · simp [unjudged, isLoopEvidence]

end Repetition

namespace Assessor

variable {s : Settings} {a : Assessor} {obs : Observation}

theorem alarm_lastLine (h : ¬ obs.repetition.isLoopEvidence) (line : Option String) :
    alarm s (a.noteTimers { obs with lastLine := line }) { obs with lastLine := line } =
      alarm s (a.noteTimers obs) obs := by
  have hsince (l : Option String) : (a.noteTimers { obs with lastLine := l }).loopSince = none := by
    simp [noteTimers, timer, h]
  simp only [alarm, runawayAlarm, stuckAlarm, h, hsince line, hsince obs.lastLine, if_false,
    Bool.false_eq_true]
  rfl

/-- The last line counts only if there is evidence of a loop at this tick. -/
theorem observe_lastLine (h : ¬ obs.repetition.isLoopEvidence) (line : Option String) :
    observe s a { obs with lastLine := line } = observe s a obs := by
  have halarm := alarm_lastLine (s := s) (a := a) h line
  obtain ⟨time, repetition, resources, liveness, l⟩ := obs
  by_cases ht : a.state.isTerminal
  · rw [observe_terminal ht, observe_terminal ht]
  · cases liveness with
    | groupEmpty =>
      rw [observe_groupEmpty ht rfl, observe_groupEmpty ht rfl]
      rfl
    | parentGone n =>
      rw [observe_parentGone ht rfl, observe_parentGone ht rfl]
      rfl
    | running =>
      rw [observe_running ht rfl, observe_running ht rfl, assessRunning, halarm]
      rfl

end Assessor

-- ---------------------------------------------------------------------------
-- Workloads alike
-- ---------------------------------------------------------------------------

namespace Tracked

/-- Nothing that a judgement looks at tells the two apart. -/
structure Alike (t u : Tracked) : Prop where
  cpuSamples : t.cpuSamples = u.cpuSamples
  memSamples : t.memSamples = u.memSamples
  logWindow : t.logWindow = u.logWindow
  lastLine : t.logWindow.entries ≠ [] → t.lastLine = u.lastLine

variable {t u : Tracked} {s : Settings} {a : Assessor}

theorem Alike.recordLine (h : t.Alike u) (time : Nat) (line : OutputLine) :
    (t.recordLine time line).Alike (u.recordLine time line) := by
  unfold Tracked.recordLine
  rw [h.logWindow]
  split
  · exact ⟨h.cpuSamples, h.memSamples, rfl, fun _ => rfl⟩
  · exact h

theorem Alike.recordSample (h : t.Alike u) (time : Nat) (cpuPercent : Float) (residentBytes : Nat) :
    (t.recordSample time cpuPercent residentBytes).Alike
      (u.recordSample time cpuPercent residentBytes) := by
  unfold Tracked.recordSample
  rw [h.cpuSamples, h.memSamples]
  split
  · exact ⟨rfl, rfl, h.logWindow, h.lastLine⟩
  · exact h

theorem Alike.pruneLog (h : t.Alike u) (now : Nat) : (t.pruneLog now).Alike (u.pruneLog now) where
  cpuSamples := h.cpuSamples
  memSamples := h.memSamples
  logWindow := congrArg (·.prune now) h.logWindow
  lastLine hne := by
    refine h.lastLine fun hnone => hne ?_
    have hsuffix := Ring.entries_prune_suffix t.logWindow now
    rw [hnone] at hsuffix
    exact List.suffix_nil.mp hsuffix

theorem alike_clearLog (hcpu : t.cpuSamples = u.cpuSamples) (hmem : t.memSamples = u.memSamples)
    (hwindow : t.logWindow.clear = u.logWindow.clear) : t.clearLog.Alike u.clearLog where
  cpuSamples := hcpu
  memSamples := hmem
  logWindow := hwindow
  lastLine hne := absurd rfl hne

theorem Alike.diagnosed (h : t.Alike u) {x x' : Health} {at' at'' : Nat} :
    Alike { t with state := x, lastTransition := at' } { u with state := x', lastTransition := at'' } :=
  ⟨h.cpuSamples, h.memSamples, h.logWindow, h.lastLine⟩

theorem Alike.evidence (h : t.Alike u) (x : Monitor.Act) :
    (Monitor.evidence t x).Alike (Monitor.evidence u x) := by
  cases x with
  | call c =>
    cases c with
    | line time text => exact h.recordLine time _
    | reading time cpuPercent residentBytes => exact h.recordSample time cpuPercent residentBytes
    | tick now => exact h.pruneLog now
    | reset =>
      exact alike_clearLog h.cpuSamples h.memSamples (congrArg (·.clear) h.logWindow)
    | abandon => exact h
  | prune now => exact h.pruneLog now
  | judge => exact h

theorem Alike.observe (h : t.Alike u) (now : Nat) (liveness : Liveness) :
    a.observe s (Monitor.observation s t now liveness) =
      a.observe s (Monitor.observation s u now liveness) := by
  have hobs : Monitor.observation s t now liveness =
      { Monitor.observation s u now liveness with lastLine := t.lastLine } := by
    simp only [Monitor.observation, h.cpuSamples, h.memSamples, h.logWindow]
  by_cases hnone : u.logWindow.entries = []
  · rw [hobs]
    exact Assessor.observe_lastLine (Repetition.not_isLoopEvidence_of_empty hnone) t.lastLine
  · rw [hobs, h.lastLine (h.logWindow ▸ hnone)]
    rfl

theorem Alike.assess (h : t.Alike u) (x : Monitor.Act) :
    Monitor.assess s a t x = Monitor.assess s a u x := by
  cases x with
  | call c =>
    cases c with
    | tick now liveness => exact h.observe now liveness
    | _ => rfl
  | prune => rfl
  | judge now liveness => exact h.observe now liveness

end Tracked

-- ---------------------------------------------------------------------------
-- Whole runs
-- ---------------------------------------------------------------------------

namespace Monitor

variable {s : Settings} {m n m' : Monitor} {t u : Tracked} {x : Act} {acts : List Act}
  {out : Option Diagnosis} {now : Nat}

theorem conclude_alike (h : t.Alike u) (b : Assessor) (out : Option Diagnosis) :
    ∃ m n, conclude t now (b, out) = (m, out) ∧ conclude u now (b, out) = (n, out) ∧
      m.assessor = n.assessor ∧ m.tracked.Alike n.tracked := by
  cases out with
  | none => exact ⟨_, _, rfl, rfl, rfl, h⟩
  | some d => exact ⟨_, _, rfl, rfl, rfl, h.diagnosed⟩

theorem act_alike (ha : m.assessor = n.assessor) (ht : m.tracked.Alike n.tracked) (x : Act) :
    (∃ e, act s m x = .error e ∧ act s n x = .error e) ∨
      ∃ m' n' out, act s m x = .ok (m', out) ∧ act s n x = .ok (n', out) ∧
        m'.assessor = n'.assessor ∧ m'.tracked.Alike n'.tracked := by
  have hevidence := ht.evidence x
  rw [act_eq s m, act_eq s n, ha, hevidence.assess x]
  cases assess s n.assessor (evidence n.tracked x) x with
  | error e => exact .inl ⟨e, rfl, rfl⟩
  | ok judged =>
    obtain ⟨m', n', hm, hn, halike⟩ := conclude_alike hevidence judged.1 judged.2
    exact .inr ⟨m', n', judged.2, congrArg Except.ok hm, congrArg Except.ok hn, halike⟩

def transcript (s : Settings) (m : Monitor) (acts : List Act) : List (Act × Option Diagnosis) :=
  (steps (act s) m acts).map fun t => (t.event, t.output)

theorem transcript_cons (h : act s m x = .ok (m', out)) :
    transcript s m (x :: acts) = (x, out) :: transcript s m' acts := by
  rw [transcript, steps_cons h]
  rfl

theorem transcript_broken (h : act s m x = .error e) : transcript s m (x :: acts) = [] := by
  simp [transcript, steps, h]

/-- Whatever is done next, nothing that is said tells workloads apart that are alike. -/
theorem transcript_alike (ha : m.assessor = n.assessor) (ht : m.tracked.Alike n.tracked) :
    transcript s m acts = transcript s n acts := by
  induction acts generalizing m n with
  | nil => rfl
  | cons x acts ih =>
    rcases act_alike ha ht x with ⟨e, hm, hn⟩ | ⟨m', n', out, hm, hn, ha', ht'⟩
    · rw [transcript_broken hm, transcript_broken hn]
    · rw [transcript_cons hm, transcript_cons hn, ih ha' ht']

-- ---------------------------------------------------------------------------
-- What the readings leave
-- ---------------------------------------------------------------------------

def Act.reading? : Act → Option (Nat × Float × Nat)
  | .call (.reading time cpuPercent residentBytes) => some (time, cpuPercent, residentBytes)
  | _ => none

def readings (acts : List Act) : List (Nat × Float × Nat) := acts.filterMap Act.reading?

def sampled (rings : Ring Float × Ring Nat) : Nat × Float × Nat → Ring Float × Ring Nat
  | (time, cpuPercent, residentBytes) =>
    if rings.1.accepts time then (rings.1.push time cpuPercent, rings.2.push time residentBytes)
    else rings

def samples (t : Tracked) : Ring Float × Ring Nat := (t.cpuSamples, t.memSamples)

theorem samples_evidence (t : Tracked) (x : Act) :
    samples (evidence t x) = x.reading?.toList.foldl sampled (samples t) := by
  cases x with
  | call c =>
    cases c with
    | line =>
      simp only [evidence, Tracked.recordLine]
      split <;> rfl
    | reading =>
      simp only [evidence, Tracked.recordSample]
      split
      · rename_i ha
        exact (if_pos ha).symm
      · rename_i ha
        exact (if_neg ha).symm
    | _ => rfl
  | prune | judge => rfl

theorem run_samples (h : run (act s) m acts = .ok m') :
    samples m'.tracked = (readings acts).foldl sampled (samples m.tracked) := by
  induction acts generalizing m with
  | nil =>
    cases h
    rfl
  | cons x acts ih =>
    obtain ⟨n, out, hx, hacts⟩ := run_cons_ok.mp h
    obtain ⟨-, state, lastTransition, hn⟩ := act_ok hx
    have hsamples : samples n.tracked = samples (evidence m.tracked x) := by
      rw [hn]
      rfl
    rw [ih hacts, hsamples, samples_evidence, readings, readings, List.filterMap_cons]
    cases x.reading? with
    | none => rfl
    | some reading => rfl

theorem run_process (h : run (act s) m acts = .ok m') : m'.assessor.process = m.assessor.process :=
  (path_of_run h).preserves (P := fun n => n.assessor.process = m.assessor.process) rfl
    fun _ _ ht hbefore => (act_process ht).trans hbefore

theorem run_clear_logWindow (h : run (act s) m acts = .ok m') :
    m'.tracked.logWindow.clear = m.tracked.logWindow.clear := by
  refine (path_of_run h).preserves (P := fun n => n.tracked.logWindow.clear = m.tracked.logWindow.clear)
    rfl fun t _ ht hbefore => ?_
  obtain ⟨-, state, lastTransition, hafter⟩ := act_ok ht
  rw [hafter, ← hbefore]
  exact clear_logWindow_evidence _ _

-- ---------------------------------------------------------------------------
-- Resets
-- ---------------------------------------------------------------------------

theorem reset_assessor (ht : ¬ m.state.isTerminal) (now : Nat) :
    (m.reset now).1.assessor = { process := m.assessor.process } := by
  have hreset : m.assessor.reset = ((m.reset now).1.assessor, (m.reset now).2) := conclude_eq rfl
  have hnot : ¬ m.assessor.state.isTerminal := ht
  rw [Assessor.reset, if_neg hnot] at hreset
  rw [Assessor.enter_eq hreset]

theorem reset_tracked (m : Monitor) (now : Nat) :
    ∃ state lastTransition, (m.reset now).1.tracked = { m.tracked.clearLog with state, lastTransition } :=
  conclude_tracked rfl

/-- A reset gives a clean slate. Whatever the lines before it were, and whatever else was done apart from the
readings, what is said after it is the same: every diagnosis with its states and its evidence, quoted lines
included, and where a judgement cannot be made. -/
theorem reset_forgets_lines (s : Settings) (id : ProcessId) (begun₁ begun₂ : Nat) (before₁ before₂ : List Act)
    (hreadings : readings before₁ = readings before₂) {m₁ m₂ : Monitor}
    (hrun₁ : run (act s) (start s id begun₁) before₁ = .ok m₁)
    (hrun₂ : run (act s) (start s id begun₂) before₂ = .ok m₂)
    (hstate₁ : ¬ m₁.state.isTerminal) (hstate₂ : ¬ m₂.state.isTerminal) (now₁ now₂ : Nat)
    (after : List Act) :
    transcript s (m₁.reset now₁).1 after = transcript s (m₂.reset now₂).1 after := by
  have hassessor : (m₁.reset now₁).1.assessor = (m₂.reset now₂).1.assessor := by
    rw [reset_assessor hstate₁, reset_assessor hstate₂, run_process hrun₁, run_process hrun₂]
    rfl
  have hsamples : samples m₁.tracked = samples m₂.tracked := by
    rw [run_samples hrun₁, run_samples hrun₂, hreadings]
    rfl
  have hwindow : m₁.tracked.logWindow.clear = m₂.tracked.logWindow.clear := by
    rw [run_clear_logWindow hrun₁, run_clear_logWindow hrun₂]
    rfl
  obtain ⟨hcpu, hmem⟩ := Prod.mk.inj hsamples
  obtain ⟨_, _, htracked₁⟩ := reset_tracked m₁ now₁
  obtain ⟨_, _, htracked₂⟩ := reset_tracked m₂ now₂
  refine transcript_alike hassessor ?_
  rw [htracked₁, htracked₂]
  exact (Tracked.alike_clearLog hcpu hmem hwindow).diagnosed

def stuckOnce : List Act :=
  [.call (.line 200 "attempt 1: no answer"), .call (.line 600 "attempt 2: no answer"),
    .call (.reading 800 99 4096), .call (.tick 1000 .running), .call (.tick 3000 .running)]

def quietOnce : List Act :=
  [.call (.line 100 "token=abc"), .call (.reading 800 99 4096), .call (.line 900 "ready")]

/-- Another loop. The first tick comes while the last line is still one from before. -/
def loopLater : List Act :=
  [.call (.tick 5000 .running), .call (.line 5200 "again"), .prune 5300, .call (.line 5400 "again"),
    .call (.tick 6000 .running), .judge 8000 .running]

theorem loopLater_forgets :
    ∃ m₁ m₂, run (act brisk) (start brisk ⟨1, 1⟩ 0) stuckOnce = .ok m₁ ∧ m₁.state = .stuck ∧
      run (act brisk) (start brisk ⟨1, 1⟩ 0) quietOnce = .ok m₂ ∧ m₂.state = .healthy ∧
      transcript brisk (m₁.reset 4000).1 loopLater = transcript brisk (m₂.reset 4000).1 loopLater ∧
      (transcript brisk (m₂.reset 4000).1 loopLater).any fun p => p.2.any (·.target = .stuck) := by
  have hstuck : (run (act brisk) (start brisk ⟨1, 1⟩ 0) stuckOnce).toOption.map state = some .stuck := by
    decide +kernel
  have hquiet : (run (act brisk) (start brisk ⟨1, 1⟩ 0) quietOnce).toOption.map (fun m =>
      (m.state, (transcript brisk (m.reset 4000).1 loopLater).any fun p => p.2.any (·.target = .stuck))) =
        some (.healthy, true) := by
    decide +kernel
  obtain ⟨m₁, hrun₁, hstate₁⟩ := Option.map_eq_some_iff.mp hstuck
  obtain ⟨m₂, hrun₂, hboth⟩ := Option.map_eq_some_iff.mp hquiet
  obtain ⟨hstate₂, hsaid⟩ := Prod.mk.inj hboth
  have hsame := reset_forgets_lines brisk ⟨1, 1⟩ 0 0 stuckOnce quietOnce rfl (ok_of_toOption hrun₁)
    (ok_of_toOption hrun₂) (by rw [hstate₁]; decide) (by rw [hstate₂]; decide) 4000 4000 loopLater
  exact ⟨m₁, m₂, ok_of_toOption hrun₁, hstate₁, ok_of_toOption hrun₂, hstate₂, hsame, hsaid⟩

end Monitor

end Vigil
