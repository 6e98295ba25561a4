import Vigil.Proofs.Health.Blocks
import Vigil.Proofs.Health.Spent

/-!
# How long a loop and a load are put up with

A loop is an alarm once it has lasted for the dwell, and a load once it has lasted for the grace period, or
at once if there is a loop besides. `Assessor.stuck_iff_loop_lasts` and `Assessor.runaway_iff_load_lasts` say
after any calls when an observation raises the one and the other, by the block of observations that ends
with it. While a high load may still turn out to be sustained, a loop is put up with for one CPU window
more, and no longer.
-/

namespace Vigil

def Observation.settled (obs : Observation) : Observation :=
  { obs with resources.cpu.warming := false }

/-- A running workload with a loop and nothing worse. -/
structure Observation.OnlyLoops (obs : Observation) : Prop where
  running : obs.liveness = .running
  bounded : ¬ obs.resources.leaking
  rested : ¬ obs.strains
  loops : obs.loops

namespace Health

theorem severity_lt_one_iff {h : Health} : h.severity < 1 ↔ h = .healthy ∨ h = .bursty := by
  cases h <;> decide

theorem severity_lt_two_iff {h : Health} :
    h.severity < 2 ↔ h = .healthy ∨ h = .bursty ∨ h = .stuck := by
  cases h <;> decide

theorem not_terminal_of_severity_lt {h k : Health} (hlt : h.severity < k.severity) :
    ¬ h.isTerminal := by
  intro ht
  rw [severity_of_terminal ht] at hlt
  exact absurd k.severity_le (Nat.not_le_of_lt hlt)

theorem severity_eq_one_iff {h : Health} : h.severity = 1 ↔ h = .stuck := by
  cases h <;> decide

end Health

namespace Assessor

variable {s : Settings} {a b : Assessor} {obs e : Observation} {c : Call} {calls : List Call}
  {id : ProcessId} {target : Health} {text : String}

def Raises (s : Settings) (a : Assessor) (obs : Observation) (target : Health) : Prop :=
  ∃ b d, call s a (.observe obs) = .ok (b, some d) ∧ d.target = target

-- ---------------------------------------------------------------------------
-- One observation
-- ---------------------------------------------------------------------------

theorem stuckAlarm_iff (hspan : s.assessment.loopDwell + s.cpu.window < Settings.spanLimit) :
    (∃ text, stuckAlarm s a obs = .ok (some text)) ↔
      ∃ since ∈ a.loopSince, s.assessment.loopDwell ≤ obs.time - since ∧
        (¬ obs.resources.cpu.warming ∨
          s.assessment.loopDwell + s.cpu.window ≤ obs.time - since) := by
  have hfits : ¬ Settings.spanLimit ≤ s.assessment.loopDwell + s.cpu.window := by omega
  unfold stuckAlarm
  cases a.loopSince with
  | none => simp
  | some since =>
    simp only [hfits, decide_false, Bool.and_false, Bool.false_eq_true, if_false]
    by_cases hdue : s.assessment.loopDwell ≤ obs.time - since
    · cases hwarm : obs.resources.cpu.warming
      · simp [hdue]
      · by_cases hlong : s.assessment.loopDwell + s.cpu.window ≤ obs.time - since
        · simp [hdue, hlong, Nat.not_lt_of_le hlong]
        · simp [hlong, Nat.lt_of_not_le hlong]
    · simp [hdue]

theorem runawayAlarm_iff :
    (∃ text, runawayAlarm s a obs = some text) ↔
      obs.strains ∧ (obs.loops ∨ s.cpu.runawayGrace ≤ (a.sustainedSince.map (obs.time - ·)).getD 0) := by
  unfold runawayAlarm Observation.strains Observation.loops
  by_cases hload : obs.resources.cpu.verdict = .sustained
  · cases hloop : obs.repetition.isLoopEvidence
    · simp [hload]
    · simp [hload]
  · simp [hload]

theorem alarm_stuck_iff :
    (∃ text, alarm s (a.noteTimers obs) obs = .ok (some (.stuck, text))) ↔
      ¬ obs.resources.leaking ∧ ¬ obs.strains ∧
        ∃ text, stuckAlarm s (a.noteTimers obs) obs = .ok (some text) := by
  constructor
  · rintro ⟨text, h⟩
    rcases alarm_some h with ⟨htarget, -⟩ | ⟨htarget, -⟩ | ⟨-, hleak, hload⟩
    · cases htarget
    · cases htarget
    · refine ⟨hleak, by simpa [Observation.strains] using hload, ?_⟩
      have hrun : runawayAlarm s (a.noteTimers obs) obs = none := by simp [runawayAlarm, hload]
      rw [alarm, if_neg hleak, hrun] at h
      obtain ⟨found, hstuck, hfound⟩ := map_ok.mp h
      obtain ⟨text', rfl, -⟩ := Option.map_eq_some_iff.mp hfound
      exact ⟨text', hstuck⟩
  · rintro ⟨hleak, hload, text, hstuck⟩
    have hrun : runawayAlarm s (a.noteTimers obs) obs = none := by
      simp [runawayAlarm, show obs.resources.cpu.verdict ≠ .sustained by
        simpa [Observation.strains] using hload]
    refine ⟨text, ?_⟩
    rw [alarm, if_neg hleak, hrun, hstuck]
    rfl

theorem alarm_runaway_iff :
    (∃ text, alarm s (a.noteTimers obs) obs = .ok (some (.runaway, text))) ↔
      ¬ obs.resources.leaking ∧ ∃ text, runawayAlarm s (a.noteTimers obs) obs = some text := by
  constructor
  · rintro ⟨text, h⟩
    unfold alarm at h
    split at h
    · cases h
    · rename_i hleak
      split at h
      · rename_i text' hrun
        exact ⟨hleak, text', hrun⟩
      · obtain ⟨found, -, hfound⟩ := map_ok.mp h
        cases found <;> cases hfound
  · rintro ⟨hleak, text, hrun⟩
    exact ⟨text, by rw [alarm, if_neg hleak, hrun]⟩

theorem severity_lt_of_not_swallowed (ht : ¬ a.state.isTerminal) (htarget : target = .stuck ∨ target = .runaway)
    (h : ¬ (a.state.isSticky && decide (target.severity ≤ a.state.severity)) = true) :
    a.state.severity < target.severity := by
  by_cases hs : a.state.isSticky
  · exact Nat.lt_of_not_le fun hle => h (by simp [hs, hle])
  · rw [(Health.severity_eq_zero_iff a.state).mpr ⟨hs, ht⟩]
    rcases htarget with rfl | rfl <;> decide

theorem Raises.alarm (h : Raises s a obs target) (htarget : target = .stuck ∨ target = .runaway) :
    a.state.severity < target.severity ∧ obs.liveness = .running ∧
      ∃ text, alarm s (a.noteTimers obs) obs = .ok (some (target, text)) := by
  obtain ⟨b, d, h, rfl⟩ := h
  cases observed h with
  | ended _ hr => cases (Prod.mk.inj hr).2
  | emptied _ _ he | orphaned _ _ he =>
    rw [enter_target he] at htarget
    simp at htarget
  | running ht hl hr =>
    obtain ⟨found, halarm, hr⟩ := map_ok.mp hr
    split at hr
    · rename_i target text
      split at hr
      · cases hr
      · rename_i hheard
        rw [enter_target hr] at htarget ⊢
        exact ⟨severity_lt_of_not_swallowed ht htarget hheard, hl, text, halarm⟩
    · -- without an alarm the state becomes a calm one
      split at hr
      · cases hr
      · split at hr
        · rw [enter_target hr] at htarget
          simp at htarget
        · rw [enter_target hr] at htarget
          simp at htarget
        · cases hr

theorem raises_of_alarm (hmild : a.state.severity < target.severity) (hl : obs.liveness = .running)
    (h : alarm s (a.noteTimers obs) obs = .ok (some (target, text))) : Raises s a obs target := by
  have ht := Health.not_terminal_of_severity_lt hmild
  have hne : target ≠ a.state := by
    rintro rfl
    exact Nat.lt_irrefl _ hmild
  refine ⟨{ a.noteTimers obs with state := target }, ⟨a.process, a.state, target, text⟩, ?_, rfl⟩
  rw [call, observe_running ht hl, assessRunning, h]
  simp only [Except.map, noteTimers_state, Nat.not_le_of_lt hmild, decide_false, Bool.and_false,
    Bool.false_eq_true, if_false, enter, hne]
  rfl

/-- An alarm over a loop or a load is raised if the evidence supports it and the state is a milder one. -/
theorem raises_iff (htarget : target = .stuck ∨ target = .runaway) :
    Raises s a obs target ↔ a.state.severity < target.severity ∧ obs.liveness = .running ∧
      ∃ text, alarm s (a.noteTimers obs) obs = .ok (some (target, text)) :=
  ⟨fun h => h.alarm htarget, fun ⟨hmild, hl, _, halarm⟩ => raises_of_alarm hmild hl halarm⟩

theorem Raises.state_eq (h : Raises s a obs target) (hc : call s a (.observe obs) = .ok (b, out)) :
    b.state = target := by
  obtain ⟨b', d, hd, rfl⟩ := h
  rw [hc] at hd
  cases hd
  cases call_judged hc with
  | turns _ _ _ _ htgt _ => exact htgt.symm

theorem call_onlyLoops (ho : obs.OnlyLoops) (ha : a.state.severity ≤ 1)
    (h : call s a (.observe obs) = .ok (b, out)) : b.state.severity ≤ 1 := by
  cases observed h with
  | ended _ hr =>
    cases hr
    exact ha
  | emptied _ hl | orphaned _ hl =>
    rw [ho.running] at hl
    cases hl
  | running _ _ hr =>
    obtain ⟨found, halarm, hr⟩ := map_ok.mp hr
    split at hr
    · split at hr
      · cases hr
        exact ha
      · rw [enter_state hr]
        rcases alarm_some halarm with ⟨-, hleak⟩ | ⟨-, -, hload⟩ | ⟨rfl, -⟩
        · exact absurd hleak ho.bounded
        · exact absurd hload (by simpa [Observation.strains] using ho.rested)
        · exact Nat.le_refl _
    · split at hr
      · cases hr
        exact ha
      · split at hr
        · rw [enter_state hr]
          decide
        · rw [enter_state hr]
          decide
        · cases hr
          exact ha

theorem observe_of_unrepeated (h : ¬ obs.loops) : ∃ r, observe s a obs = .ok r := by
  have hsince : (a.noteTimers obs).loopSince = none := by
    simp [noteTimers, timer, show ¬ obs.repetition.isLoopEvidence from h]
  have hquiet : stuckAlarm s (a.noteTimers obs) obs = .ok none := by
    rw [stuckAlarm, hsince]
  have halarm : ∃ found, alarm s (a.noteTimers obs) obs = .ok found := by
    unfold alarm
    split
    · exact ⟨_, rfl⟩
    · split
      · exact ⟨_, rfl⟩
      · exact ⟨none, by rw [hquiet]; rfl⟩
  by_cases ht : a.state.isTerminal
  · exact ⟨_, observe_terminal ht⟩
  · cases hl : obs.liveness with
    | groupEmpty => exact ⟨_, observe_groupEmpty ht hl⟩
    | parentGone n => exact ⟨_, observe_parentGone ht hl⟩
    | running =>
      obtain ⟨found, hfound⟩ := halarm
      rw [observe_running ht hl, assessRunning, hfound]
      exact ⟨_, rfl⟩

-- ---------------------------------------------------------------------------
-- Whole runs
-- ---------------------------------------------------------------------------

theorem run_total (hspan : s.assessment.loopDwell + s.cpu.window < Settings.spanLimit) (a : Assessor)
    (calls : List Call) : ∃ b, run (call s) a calls = .ok b := by
  cases h : run (call s) a calls with
  | ok b => exact ⟨b, rfl⟩
  | error x =>
    obtain ⟨b, c, -, hx⟩ := breaks_of_run h
    cases c with
    | observe obs => exact absurd (observe_error hx) (Nat.not_le_of_lt hspan)
    | reset | abandon => cases hx

theorem raises_stuck_iff (hspan : s.assessment.loopDwell + s.cpu.window < Settings.spanLimit)
    (hrun : run (call s) { process := id } calls = .ok a) (obs : Observation) :
    Raises s a obs .stuck ↔
      (a.state = .healthy ∨ a.state = .bursty) ∧ obs.liveness = .running ∧ ¬ obs.resources.leaking ∧
        ¬ obs.strains ∧ obs.loops ∧
        ∃ e ∈ blockStart Observation.loops (calls ++ [.observe obs]),
          s.assessment.loopDwell ≤ obs.time - e.time ∧
            (¬ obs.resources.cpu.warming ∨
              s.assessment.loopDwell + s.cpu.window ≤ obs.time - e.time) := by
  rw [raises_iff (.inl rfl), alarm_stuck_iff, stuckAlarm_iff hspan, ← Health.severity_lt_one_iff]
  refine and_congr_right fun hmild => ?_
  have ht := Health.not_terminal_of_severity_lt (k := .stuck) hmild
  rw [((run_timed hrun ht).noteTimers obs).loop]
  by_cases hloop : obs.loops
  · simp [blockStart_observe hloop, hloop]
  · simp [blockStart_eq_none hloop, hloop]

theorem raises_runaway_iff (hrun : run (call s) { process := id } calls = .ok a) (obs : Observation) :
    Raises s a obs .runaway ↔
      (a.state = .healthy ∨ a.state = .bursty ∨ a.state = .stuck) ∧ obs.liveness = .running ∧
        ¬ obs.resources.leaking ∧ obs.strains ∧
        (obs.loops ∨ ∃ e ∈ blockStart Observation.strains (calls ++ [.observe obs]),
          s.cpu.runawayGrace ≤ obs.time - e.time) := by
  rw [raises_iff (.inr rfl), alarm_runaway_iff, runawayAlarm_iff, ← Health.severity_lt_two_iff]
  refine and_congr_right fun hmild => ?_
  have ht := Health.not_terminal_of_severity_lt (k := .runaway) hmild
  rw [((run_timed hrun ht).noteTimers obs).load]
  by_cases hload : obs.strains
  · simp [blockStart_observe hload, hload]
  · simp [hload]

theorem run_onlyLoops {seen : List Observation} (hseen : ∀ o ∈ seen, o.OnlyLoops)
    (ha : a.state.severity ≤ 1) (h : run (call s) a (seen.map .observe) = .ok b) :
    b.state.severity ≤ 1 := by
  induction seen generalizing a with
  | nil =>
    cases h
    exact ha
  | cons o seen ih =>
    obtain ⟨c, out, hc, hrest⟩ := run_cons_ok.mp h
    exact ih (fun o ho => hseen o (List.mem_cons_of_mem _ ho))
      (call_onlyLoops (hseen o List.mem_cons_self) ha hc) hrest

def InOrder (calls : List Call) : Prop :=
  (calls.filterMap Call.observation?).Pairwise (·.time ≤ ·.time)

theorem InOrder.time_le (h : InOrder (calls ++ [.observe obs])) (he : .observe e ∈ calls) :
    e.time ≤ obs.time := by
  rw [InOrder, List.filterMap_append] at h
  exact (List.pairwise_append.mp h).2.2 e (List.mem_filterMap.mpr ⟨_, he, rfl⟩) obs (by simp [Call.observation?])

theorem InOrder.blockStart_le (h : InOrder (calls ++ [.observe obs])) :
    ((blockStart on calls).getD obs).time ≤ obs.time := by
  cases hstart : blockStart on calls with
  | none => exact Nat.le_refl _
  | some e => exact h.time_le (observe_mem_of_blockStart hstart)

theorem blockStart_loops (calls : List Call) {seen : List Observation} (hloop : obs.loops) (hseen : ∀ o ∈ seen, o.loops) :
    blockStart Observation.loops (calls ++ .observe obs :: seen.map .observe) =
      some ((blockStart Observation.loops calls).getD obs) := by
  rw [List.append_cons]
  refine blockStart_append (blockStart_observe hloop) ?_
  intro c hc
  obtain ⟨o, ho, rfl⟩ := List.mem_map.mp hc
  exact hseen o ho

theorem stuck_of_due (ho : obs.OnlyLoops) (ha : a.state.severity ≤ 1)
    (hc : call s a (.observe obs) = .ok (b, out)) (hdue : a.state.severity < 1 → Raises s a obs .stuck) :
    b.state = .stuck := by
  by_cases hcalm : a.state.severity < 1
  · exact (hdue hcalm).state_eq hc
  · have hkept : a.state.severity ≤ b.state.severity := severity_le_of_call (by simp) hc
    have htop : b.state.severity ≤ 1 := call_onlyLoops ho ha hc
    exact Health.severity_eq_one_iff.mp (by omega)

/-- A loop that only a load that is not yet settled keeps from being stuck is stuck one CPU window later. -/
theorem stuck_within_window {later : List Observation} {last : Observation}
    (hspan : s.assessment.loopDwell + s.cpu.window < Settings.spanLimit)
    (hrun : run (call s) { process := id } calls = .ok a) (horder : InOrder (calls ++ [.observe obs]))
    (hdue : Raises s a obs.settled .stuck) (honly : ∀ o ∈ later ++ [last], o.OnlyLoops)
    (hlong : obs.time + s.cpu.window ≤ last.time) :
    ∃ b, run (call s) a ((obs :: later ++ [last]).map .observe) = .ok b ∧ b.state = .stuck := by
  obtain ⟨hcalm, hl, hleak, hload, hloop, e, he, (hdwell : _ ≤ obs.time - e.time), -⟩ :=
    (raises_stuck_iff hspan hrun obs.settled).mp hdue
  have hobs : obs.OnlyLoops := ⟨hl, hleak, hload, hloop⟩
  have hlast : last.OnlyLoops := honly last (by simp)
  -- the block begins at the same time with and without the load settled
  have hstart : e.time = ((blockStart Observation.loops calls).getD obs).time := by
    rw [blockStart_observe hloop] at he
    cases he
    cases blockStart Observation.loops calls <;> rfl
  have hle : e.time ≤ obs.time := hstart ▸ horder.blockStart_le
  have hblock := blockStart_loops calls hobs.loops fun o ho => (honly o ho).loops
  have hlasted : s.assessment.loopDwell + s.cpu.window ≤
      last.time - ((blockStart Observation.loops calls).getD obs).time := by omega
  obtain ⟨c, hc⟩ := run_total hspan a ((obs :: later).map .observe)
  obtain ⟨b, hb⟩ := run_total hspan c [.observe last]
  obtain ⟨_, out, hcall, hnil⟩ := run_cons_ok.mp hb
  cases hnil
  have hmild : c.state.severity ≤ 1 := by
    refine run_onlyLoops ?_ (Nat.le_of_lt (Health.severity_lt_one_iff.mpr hcalm)) hc
    intro o ho
    rcases List.mem_cons.mp ho with rfl | ho
    · exact hobs
    · exact honly o (List.mem_append_left _ ho)
  have hraises : c.state.severity < 1 → Raises s c last .stuck := by
    intro hcalm
    have hsofar : run (call s) { process := id } (calls ++ (obs :: later).map .observe) = .ok c :=
      run_append_ok.mpr ⟨a, hrun, hc⟩
    refine (raises_stuck_iff hspan hsofar last).mpr ⟨Health.severity_lt_one_iff.mp hcalm,
      hlast.running, hlast.bounded, hlast.rested, hlast.loops, _, ?_,
      Nat.le_of_add_right_le hlasted, .inr hlasted⟩
    simpa using hblock
  refine ⟨b, ?_, stuck_of_due hlast hmild hcall hraises⟩
  rw [List.map_append]
  exact run_append_ok.mpr ⟨c, hc, hb⟩

/-- A loop is stuck once it has lasted. After any calls, an observation leads to a diagnosis of a stuck
workload if and only if the state is calm, the workload runs, neither leaks nor strains, and loops, and the
block of loops that ends with this observation is as long as the dwell; with a load that may yet turn out
to be sustained, as long as the dwell and a CPU window together. So a load that is not settled delays the
alarm by one CPU window at most. Where times decrease, a difference that would be negative is none. -/
theorem stuck_iff_loop_lasts (s : Settings)
    (hspan : s.assessment.loopDwell + s.cpu.window < Settings.spanLimit) (id : ProcessId)
    (calls : List Call) :
    ∃ a, run (call s) { process := id } calls = .ok a ∧
      (∀ obs, Raises s a obs .stuck ↔
        (a.state = .healthy ∨ a.state = .bursty) ∧ obs.liveness = .running ∧ ¬ obs.resources.leaking ∧
          ¬ obs.strains ∧ obs.loops ∧
          ∃ e ∈ blockStart Observation.loops (calls ++ [.observe obs]),
            s.assessment.loopDwell ≤ obs.time - e.time ∧
              (¬ obs.resources.cpu.warming ∨
                s.assessment.loopDwell + s.cpu.window ≤ obs.time - e.time)) ∧
      ∀ obs later last, InOrder (calls ++ [.observe obs]) → Raises s a obs.settled .stuck →
        (∀ o ∈ later ++ [last], o.OnlyLoops) → obs.time + s.cpu.window ≤ last.time →
        ∃ b, run (call s) a ((obs :: later ++ [last]).map .observe) = .ok b ∧ b.state = .stuck := by
  obtain ⟨a, hrun⟩ := run_total hspan { process := id } calls
  refine ⟨a, hrun, raises_stuck_iff hspan hrun, ?_⟩
  intro obs later last horder hdue honly hlong
  exact stuck_within_window hspan hrun horder hdue honly hlong

def looping (time : Nat) (warming : Bool) : Observation :=
  { time, repetition := { Repetition.unjudged 50 with verdict := .exactLoop },
    resources := { cpu := { warming } }, liveness := .running, lastLine := none }

theorem looping_found_stuck :
    ({} : Settings).assessment.loopDwell + ({} : Settings).cpu.window < Settings.spanLimit ∧
      ∃ a, run (call {}) { process := ⟨1, 1⟩ }
          [.observe (looping 0 false), .reset, .observe (looping 1000 true)] = .ok a ∧
        ¬ Raises {} a (looping 20999 true) .stuck ∧ Raises {} a (looping 21000 true) .stuck ∧
        Raises {} a (looping 11000 false) .stuck ∧
        ∃ b, run (call {}) a
            [.observe (looping 11000 true), .observe (looping 16000 true), .observe (looping 21000 true)] =
              .ok b ∧ b.state = .stuck := by
  obtain ⟨a, hrun, hiff, hdelay⟩ := stuck_iff_loop_lasts {} (by decide) ⟨1, 1⟩
    [.observe (looping 0 false), .reset, .observe (looping 1000 true)]
  have hstate : a.state = .healthy := by
    have hcomputed : (run (call {}) { process := ⟨1, 1⟩ }
        [.observe (looping 0 false), .reset, .observe (looping 1000 true)]).toOption.map (·.state) =
          some .healthy := by decide
    rw [hrun] at hcomputed
    exact Option.some.inj hcomputed
  have hearly : ¬ Raises {} a (looping 20999 true) .stuck := by
    intro h
    obtain ⟨-, -, -, -, -, e, he, -, hwarm | hlong⟩ := (hiff _).mp h
    · exact hwarm rfl
    · obtain rfl : looping 1000 true = e := Option.some.inj he
      exact absurd hlong (by decide)
  have hlate : Raises {} a (looping 21000 true) .stuck :=
    (hiff _).mpr ⟨.inl hstate, rfl, by decide, by decide, rfl, looping 1000 true, rfl, by decide,
      .inr (by decide)⟩
  have hsettled : Raises {} a (looping 11000 false) .stuck :=
    (hiff _).mpr ⟨.inl hstate, rfl, by decide, by decide, rfl, looping 1000 true, rfl, by decide,
      .inl (by decide)⟩
  have hloops (time : Nat) : (looping time true).OnlyLoops :=
    ⟨rfl, by simp [looping], by simp [looping, Observation.strains], rfl⟩
  refine ⟨by decide, a, hrun, hearly, hlate, hsettled,
    hdelay (looping 11000 true) [looping 16000 true] (looping 21000 true) ?_ hsettled ?_ (by decide)⟩
  · unfold InOrder
    decide
  · simp [hloops]

/-- No observation has seen a loop, and no block of observations of a sustained load has become as long as
is put up with. -/
structure Harmless (s : Settings) (calls : List Call) : Prop where
  varied : ∀ obs, .observe obs ∈ calls → ¬ obs.loops
  brief : ∀ earlier obs, earlier ++ [.observe obs] <+: calls →
    ∀ e ∈ blockStart Observation.strains (earlier ++ [.observe obs]),
      obs.time - e.time < s.cpu.runawayGrace

theorem Harmless.of_snoc (h : Harmless s (calls ++ [c])) : Harmless s calls where
  varied obs hobs := h.varied obs (List.mem_append_left _ hobs)
  brief earlier obs hpre := h.brief earlier obs (hpre.trans (List.prefix_append _ _))

theorem Raises.loops (h : Raises s a obs .stuck) : obs.loops := by
  obtain ⟨-, -, halarm⟩ := (raises_iff (.inl rfl)).mp h
  obtain ⟨-, -, text, hstuck⟩ := alarm_stuck_iff.mp halarm
  exact isLoopEvidence_of_stuckAlarm hstuck

theorem call_harmless (h : Harmless s (calls ++ [c]))
    (hrun : run (call s) { process := id } calls = .ok a) :
    ∃ b out, call s a c = .ok (b, out) ∧ ∀ d ∈ out, d.target ≠ .runaway ∧ d.target ≠ .stuck := by
  cases c with
  | reset =>
    refine ⟨_, _, rfl, fun d hd => ?_⟩
    rw [reset_target (Prod.ext rfl hd)]
    decide
  | abandon reason =>
    refine ⟨_, _, rfl, fun d hd => ?_⟩
    rw [abandon_target (Prod.ext rfl hd)]
    decide
  | observe obs =>
    have hvaried := h.varied obs (by simp)
    obtain ⟨⟨b, out⟩, hobs⟩ := observe_of_unrepeated (s := s) (a := a) hvaried
    refine ⟨b, out, hobs, ?_⟩
    rintro d rfl
    constructor
    · intro htarget
      obtain ⟨-, -, -, -, hloop | ⟨e, he, hlong⟩⟩ :=
        (raises_runaway_iff hrun obs).mp ⟨b, d, hobs, htarget⟩
      · exact hvaried hloop
      · exact Nat.not_le_of_lt (h.brief calls obs List.prefix_rfl e he) hlong
    · intro htarget
      exact hvaried (Raises.loops ⟨b, d, hobs, htarget⟩)

theorem run_harmless (h : Harmless s calls) :
    ∃ a, run (call s) { process := id } calls = .ok a ∧
      ∀ t ∈ steps (call s) { process := id } calls, ∀ d ∈ t.output,
        d.target ≠ .runaway ∧ d.target ≠ .stuck := by
  induction calls using List.reverseRecOn with
  | nil => exact ⟨_, rfl, by simp [steps]⟩
  | append_singleton calls c ih =>
    obtain ⟨a, hrun, hquiet⟩ := ih h.of_snoc
    obtain ⟨b, out, hc, hlast⟩ := call_harmless h hrun
    refine ⟨b, run_append_ok.mpr ⟨a, hrun, run_cons_ok.mpr ⟨b, out, hc, rfl⟩⟩, ?_⟩
    rw [steps_append hrun, steps_cons hc]
    intro t ht
    rcases List.mem_append.mp ht with ht | ht
    · exact hquiet t ht
    · obtain rfl := List.mem_singleton.mp ht
      exact hlast

/-- A load runs away once it has lasted, or at once if there is a loop. After any calls that could be
answered, an observation leads to a diagnosis of a runaway if and only if the state is calm or stuck, the
workload runs, does not leak and strains, and either loops or the block of sustained loads that ends with
this observation is as long as the grace period. And any run without a loop, in which no such block becomes
that long, is answered throughout without an alarm over a load or a loop. -/
theorem runaway_iff_load_lasts (s : Settings) (id : ProcessId) (calls : List Call) :
    (∀ a, run (call s) { process := id } calls = .ok a → ∀ obs,
      (Raises s a obs .runaway ↔
        (a.state = .healthy ∨ a.state = .bursty ∨ a.state = .stuck) ∧ obs.liveness = .running ∧
          ¬ obs.resources.leaking ∧ obs.strains ∧
          (obs.loops ∨ ∃ e ∈ blockStart Observation.strains (calls ++ [.observe obs]),
            s.cpu.runawayGrace ≤ obs.time - e.time))) ∧
    (Harmless s calls → ∃ a, run (call s) { process := id } calls = .ok a ∧
      ∀ t ∈ steps (call s) { process := id } calls, ∀ d ∈ t.output,
        d.target ≠ .runaway ∧ d.target ≠ .stuck) :=
  ⟨fun _ hrun obs => raises_runaway_iff hrun obs, run_harmless⟩

def straining (time : Nat) : Observation :=
  { time, repetition := .unjudged 50, resources := { cpu := { verdict := .sustained } },
    liveness := .running, lastLine := none }

theorem straining_found_runaway :
    (∃ a, run (call {}) { process := ⟨1, 1⟩ } [.observe (straining 1000)] = .ok a ∧
      ¬ Raises {} a (straining 30999) .runaway ∧ Raises {} a (straining 31000) .runaway) ∧
    Harmless {} [.observe (straining 1000), .observe (straining 30999)] ∧
    ∃ a, run (call {}) { process := ⟨1, 1⟩ } [.observe (straining 1000), .observe (straining 30999)] =
      .ok a := by
  obtain ⟨a, hrun⟩ : ∃ a, run (call {}) { process := ⟨1, 1⟩ } [.observe (straining 1000)] = .ok a :=
    ⟨_, rfl⟩
  have hstate : a.state = .healthy := by
    cases hrun
    rfl
  have hiff := (runaway_iff_load_lasts {} ⟨1, 1⟩ [.observe (straining 1000)]).1 a hrun
  have hearly : ¬ Raises {} a (straining 30999) .runaway := by
    intro h
    obtain ⟨-, -, -, -, hloop | ⟨e, he, hlong⟩⟩ := (hiff _).mp h
    · cases hloop
    · obtain rfl : straining 1000 = e := Option.some.inj he
      exact absurd hlong (by decide)
  have hlate := (hiff (straining 31000)).mpr
    ⟨.inl hstate, rfl, by decide, rfl, .inr ⟨straining 1000, rfl, by decide⟩⟩
  have hharmless : Harmless {} [.observe (straining 1000), .observe (straining 30999)] := by
    refine ⟨?_, ?_⟩
    · intro obs hobs
      simp only [List.mem_cons, Call.observe.injEq, List.not_mem_nil, or_false] at hobs
      rcases hobs with rfl | rfl <;> decide
    · rintro earlier obs ⟨rest, hrest⟩ e he
      match earlier with
      | [] =>
        cases hrest
        obtain rfl : straining 1000 = e := Option.some.inj he
        decide
      | [_] =>
        cases hrest
        obtain rfl : straining 1000 = e := Option.some.inj he
        decide
      | _ :: _ :: _ => simp at hrest
  obtain ⟨b, hquiet, -⟩ := (runaway_iff_load_lasts {} ⟨1, 1⟩ _).2 hharmless
  exact ⟨⟨a, hrun, hearly, hlate⟩, hharmless, b, hquiet⟩

end Assessor

end Vigil
