import Vigil.Proofs.Health.Judgement
import Vigil.Proofs.Steps
import Vigil.Watch.Session

/-!
# What one event can do to a watch

`Watch.Move` lists everything that a step of a watch can come to, one constructor for each event and
phase with the conditions under which it applies; `Watch.step_move` reads a step as one of them. Facts
about all steps are proved by cases on it. `settle` and `respond` only set the phase, and say how.
-/

namespace Vigil.Watch

variable {s : Settings} {w w' : Watch} {fx : List WatchEffect}

-- ---------------------------------------------------------------------------
-- The parts of a step
-- ---------------------------------------------------------------------------

theorem publish_eq (r : Monitor × Option Diagnosis) :
    w.publish now r =
      ({ w with monitor := r.1, published := (r.2.map (·.target)).getD w.published },
        r.2.toList.map (.diagnosed now)) := by
  obtain ⟨m, out⟩ := r
  cases out <;> rfl

theorem mem_publish : .diagnosed time d ∈ (w.publish now r).2 ↔ time = now ∧ r.2 = some d := by
  rw [publish_eq]
  cases r.2 with
  | none => simp
  | some d' => simp [eq_comm]

theorem publish_length : (w.publish now r).2.length ≤ 1 := by
  rw [publish_eq]
  cases r.2 <;> simp

theorem settle_phase (w : Watch) :
    ∃ p, w.settle = { w with phase := p } ∧ p.isReaping = false ∧ p.isOver = w.state.isTerminal := by
  unfold settle
  split
  · rename_i ht
    refine ⟨_, rfl, ?_, ?_⟩
    · split <;> rfl
    · rw [ht]
      split <;> rfl
  · rename_i ht
    exact ⟨_, rfl, rfl, by simp [WatchPhase.isOver, ht]⟩

theorem settle_not_reaping (w : Watch) : w.settle.phase.isReaping = false := by
  obtain ⟨p, hs, hp, -⟩ := settle_phase w
  rw [hs]
  exact hp

theorem settle_phase_ne (w : Watch) : w.settle.phase ≠ .reaping mode stage := by
  intro h
  have hn := settle_not_reaping w
  rw [h] at hn
  cases hn

@[simp] theorem settle_state (w : Watch) : w.settle.state = w.state := by
  obtain ⟨p, hs, -, -⟩ := settle_phase w
  rw [hs]
  rfl

@[simp] theorem settle_id (w : Watch) : w.settle.id = w.id := by
  obtain ⟨p, hs, -, -⟩ := settle_phase w
  rw [hs]

@[simp] theorem settle_parentGone (w : Watch) : w.settle.parentGone = w.parentGone := by
  obtain ⟨p, hs, -, -⟩ := settle_phase w
  rw [hs]

theorem settle_monitor (w : Watch) : w.settle.monitor = w.monitor := by
  obtain ⟨p, hs, -, -⟩ := settle_phase w
  rw [hs]

@[simp] theorem publish_id (r : Monitor × Option Diagnosis) : (w.publish now r).1.id = w.id := by
  rw [publish_eq]

@[simp] theorem publish_parentGone (r : Monitor × Option Diagnosis) :
    (w.publish now r).1.parentGone = w.parentGone := by
  rw [publish_eq]

theorem respond_calls {d : Diagnosis} (h : callsForReap s.action.mode d.target) :
    respond s w (some d) = { w with phase := .reaping .graceful .opening } := by
  simp [respond, h]

theorem respond_settles {out : Option Diagnosis}
    (h : ∀ d ∈ out, ¬ callsForReap s.action.mode d.target) : respond s w out = w.settle := by
  cases out with
  | none => rfl
  | some d => simp [respond, h d rfl]

/-- What a verdict at a tick comes to: the watch settles, or a reap begins. -/
theorem respond_cases (s : Settings) (w : Watch) (out : Option Diagnosis) :
    respond s w out = w.settle ∨
      ∃ d, out = some d ∧ callsForReap s.action.mode d.target ∧
        respond s w out = { w with phase := .reaping .graceful .opening } := by
  by_cases h : ∃ d ∈ out, callsForReap s.action.mode d.target
  · obtain ⟨d, rfl, hd⟩ := h
    exact .inr ⟨d, rfl, hd, respond_calls hd⟩
  · exact .inl (respond_settles fun d hd hcall => h ⟨d, hd, hcall⟩)

@[simp] theorem respond_id (s : Settings) (w : Watch) (out : Option Diagnosis) :
    (respond s w out).id = w.id := by
  rcases respond_cases s w out with h | ⟨d, -, -, h⟩ <;> simp [h]

@[simp] theorem respond_parentGone (s : Settings) (w : Watch) (out : Option Diagnosis) :
    (respond s w out).parentGone = w.parentGone := by
  rcases respond_cases s w out with h | ⟨d, -, -, h⟩ <;> simp [h]

theorem respond_monitor (s : Settings) (w : Watch) (out : Option Diagnosis) :
    (respond s w out).monitor = w.monitor := by
  rcases respond_cases s w out with h | ⟨d, -, -, h⟩
  · rw [h, settle_monitor]
  · rw [h]

/-- Only an alarm calls for a reap: an orphaned group always, the others if the settings say so. -/
theorem callsForReap_iff (mode : ActionMode) (h : Health) :
    callsForReap mode h ↔
      h = .zombie ∨ mode = .kill ∧ (h = .stuck ∨ h = .runaway ∨ h = .leaking) := by
  cases h <;> cases mode <;> decide

theorem not_terminal_of_callsForReap {h : Health} (hc : callsForReap mode h) : ¬ h.isTerminal := by
  revert hc
  cases h <;> simp [callsForReap, Health.isTerminal]

-- ---------------------------------------------------------------------------
-- A step
-- ---------------------------------------------------------------------------

inductive Move (s : Settings) (w : Watch) : WatchEvent → Watch → List WatchEffect → Prop
  | unheard {e} : w.listens e = false → Move s w e w []
  | line {time l} : w.phase = .serving →
      Move s w (.line time l) { w with monitor := w.monitor.recordLine time l } []
  | reading {r} : w.phase = .serving →
      Move s w (.reading r)
        { w with monitor := w.monitor.recordSample r.time r.cpuPercent r.residentBytes } []
  | lost : w.phase = .serving →
      Move s w (.sampleFailed .processGone) { w with parentGone := true } []
  | unmetered {reason} : w.phase = .serving → Move s w (.sampleFailed (.unavailable reason)) w []
  | exited {code} : w.phase = .serving →
      Move s w (.exited code) { w with parentGone := true, exit := some code } []
  | blind {now group} : w.phase = .serving → w.liveness? group = none →
      Move s w (.tick now group) w []
  | ticked {now group liveness r} : w.phase = .serving → w.liveness? group = some liveness →
      w.monitor.tick s now liveness = .ok r →
      Move s w (.tick now group) (respond s (w.publish now r).1 r.2) (w.publish now r).2
  | reset {now} : w.phase = .serving → w.commandsOpen →
      Move s w (.reset now) (w.publish now (w.monitor.reset now)).1.settle
        (w.publish now (w.monitor.reset now)).2
  | shutdown {immediate} : w.phase = .serving → w.commandsOpen →
      Move s w (.shutdown immediate)
        { w with phase := .reaping (if immediate then .immediate else .graceful) .opening } []
  | commandsEnded : w.phase = .serving → w.commandsOpen →
      Move s w .commandsEnded { w with commandsOpen := false } []
  | sent {mode stage now group escalated pgid signal next} : w.phase = .reaping mode stage →
      Reap.turn s.reaping w.id.pgid mode stage now group escalated = .send pgid signal next →
      Move s w (.turn now group escalated) { w with phase := .reaping mode next }
        [.signalled pgid signal]
  | paused {mode stage now group escalated ms next} : w.phase = .reaping mode stage →
      Reap.turn s.reaping w.id.pgid mode stage now group escalated = .pause ms next →
      Move s w (.turn now group escalated) { w with phase := .reaping mode next } [.paused ms]
  | found {mode stage now group escalated} : w.phase = .reaping mode stage →
      Reap.turn s.reaping w.id.pgid mode stage now group escalated = .done .alreadyReaped →
      Move s w (.turn now group escalated) w.settle []
  | reaped {mode stage now group escalated forced attempts} : w.phase = .reaping mode stage →
      Reap.turn s.reaping w.id.pgid mode stage now group escalated =
        .done (.terminated forced attempts) →
      Move s w (.turn now group escalated) { w with terminated := true }.settle []
  | unreaped {mode stage now group escalated failure} : w.phase = .reaping mode stage →
      Reap.turn s.reaping w.id.pgid mode stage now group escalated = .failed failure →
      Move s w (.turn now group escalated)
        { (w.publish now (w.monitor.abandon failure.message now)).1 with terminated := true }.settle
        (w.publish now (w.monitor.abandon failure.message now)).2
  | collected {code} : w.phase = .draining →
      Move s w (.exited code) { w with exit := some code, phase := .finished } []
  | drained : w.phase = .draining → Move s w .drained { w with phase := .finished } []

variable {e : WatchEvent}

theorem serve_move (hp : w.phase = .serving) (hl : w.listens e) (h : w.serve s e = .ok (w', fx)) :
    Move s w e w' fx := by
  cases e with
  | line time l => cases h; exact .line hp
  | reading r => cases h; exact .reading hp
  | sampleFailed err =>
    cases err with
    | processGone => cases h; exact .lost hp
    | unavailable reason => cases h; exact .unmetered hp
  | exited code => cases h; exact .exited hp
  | tick now group =>
    simp only [serve, tick] at h
    cases hlive : w.liveness? group with
    | none =>
      rw [hlive] at h
      cases h
      exact .blind hp hlive
    | some liveness =>
      rw [hlive] at h
      obtain ⟨r, ht, h⟩ := map_ok.mp h
      cases h
      exact .ticked hp hlive ht
  | reset now =>
    cases h
    exact .reset hp (by simpa [listens, hp] using hl)
  | shutdown immediate =>
    cases h
    exact .shutdown hp (by simpa [listens, hp] using hl)
  | commandsEnded =>
    cases h
    exact .commandsEnded hp (by simpa [listens, hp] using hl)
  | turn now group escalated => simp [listens, hp, WatchPhase.isReaping] at hl
  | drained => simp [listens, hp] at hl

theorem reapTurn_move (hp : w.phase = .reaping mode stage)
    (h : w.reapTurn s mode stage now group escalated = (w', fx)) :
    Move s w (.turn now group escalated) w' fx := by
  unfold reapTurn at h
  cases ht : Reap.turn s.reaping w.id.pgid mode stage now group escalated with
  | send pgid signal next =>
    rw [ht] at h
    cases h
    exact .sent hp ht
  | pause ms next =>
    rw [ht] at h
    cases h
    exact .paused hp ht
  | done outcome =>
    rw [ht] at h
    cases outcome with
    | alreadyReaped => cases h; exact .found hp ht
    | terminated forced attempts => cases h; exact .reaped hp ht
  | failed failure =>
    rw [ht] at h
    cases h
    exact .unreaped hp ht

theorem step_move (h : w.step s e = .ok (w', fx)) : Move s w e w' fx := by
  cases hl : w.listens e with
  | false =>
    simp only [step, hl, Bool.false_eq_true, ↓reduceIte] at h
    cases h
    exact .unheard hl
  | true =>
    simp only [step, hl, ↓reduceIte] at h
    cases hp : w.phase with
    | serving =>
      rw [hp] at h
      exact serve_move hp hl h
    | reaping mode stage =>
      rw [hp] at h
      cases e with
      | turn now group escalated => exact reapTurn_move hp (Except.ok.inj h)
      | _ => simp [listens, hp] at hl
    | draining =>
      rw [hp] at h
      cases e with
      | exited code => cases h; exact .collected hp
      | drained => cases h; exact .drained hp
      | _ => simp [listens, hp, WatchPhase.isReaping] at hl
    | finished => cases e <;> simp [listens, hp, WatchPhase.isReaping] at hl

theorem move_id (hm : Move s w e w' fx) : w'.id = w.id := by
  cases hm with
  | ticked | reset | found | reaped | unreaped => simp
  | _ => rfl

theorem move_parentGone (hm : Move s w e w' fx) (hg : w.parentGone) : w'.parentGone := by
  cases hm with
  | lost | exited => rfl
  | ticked | reset | found | reaped | unreaped => simpa using hg
  | _ => exact hg

/-- Only a judgement that cannot be made breaks a watch. -/
theorem step_error (h : w.step s e = .error x) :
    Settings.spanLimit ≤ s.assessment.loopDwell + s.cpu.window := by
  cases e with
  | tick now group =>
    unfold step at h
    split at h
    · split at h
      · simp only [serve, tick] at h
        split at h
        · cases h
        · exact Monitor.tick_error (map_error.mp h)
      all_goals cases h
    · cases h
  | sampleFailed err =>
    unfold step at h
    cases err <;> repeat' split at h
    all_goals cases h
  | _ =>
    unfold step at h
    repeat' split at h
    all_goals cases h

end Vigil.Watch
