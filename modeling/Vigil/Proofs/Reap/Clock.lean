import Mathlib.Algebra.Order.Floor.Div
import Vigil.Proofs.Reap.Contract
import Vigil.Rehearsal.ReapRun

/-!
# A reap on the clock

A turn is taken as soon as the pause before it is over, so the times of a reap follow from what its turns
find. `Reap.course` has all turns of a reap that begins at some time. `Reap.ends_on_clock`: the reap comes to
an end, whatever is found, since each turn leaves fewer turns to be taken.
-/

namespace Vigil.Reap

variable {s : Settings.Reaping} {pgid : Int} {mode : ReapMode} {stage next : Stage} {m : Moment} {r : Turn}
  {start now deadline : Nat}

-- ---------------------------------------------------------------------------
-- Turns on the clock
-- ---------------------------------------------------------------------------

structure Sight where
  group : GroupProbe
  escalated : Bool

def Sight.moment (seen : Sight) (now : Nat) : Moment := ⟨now, seen.group, seen.escalated⟩

@[simp] theorem Sight.moment_now (seen : Sight) (now : Nat) : (seen.moment now).now = now := rfl

structure Clocked where
  stage : Option Stage
  now : Nat

def Turn.pauseMs : Turn → Nat
  | .pause ms _ => ms
  | .send .. | .done _ | .failed _ => 0

def onClock (s : Settings.Reaping) (pgid : Int) (mode : ReapMode) (c : Clocked) (seen : Sight) :
    Except Unit (Clocked × Turn) :=
  (advance s pgid mode c.stage (seen.moment c.now)).map fun r =>
    (⟨r.1, c.now + r.2.pauseMs⟩, r.2)

abbrev ClockStep := Step Clocked Sight Turn

/-- The turns of a reap that begins at time `start` and whose turns find, one after the other, what `sight`
tells. There are no more turns than `turnBound` allows. -/
def course (s : Settings.Reaping) (pgid : Int) (mode : ReapMode) (start : Nat) (sight : Nat → Sight) :
    List ClockStep :=
  steps (onClock s pgid mode) ⟨some .opening, start⟩
    ((List.range (Rehearsal.turnBound s)).map sight)

theorem clockStep_took {t : ClockStep} (ht : t.Of (onClock s pgid mode)) :
    ∃ stage, t.before.stage = some stage ∧ Took s pgid mode (t.event.moment t.before.now) stage t.output ∧
      t.after = ⟨t.output.next?, t.before.now + t.output.pauseMs⟩ := by
  obtain ⟨⟨before, now⟩, seen, out, after⟩ := t
  cases before with
  | none => cases ht
  | some stage =>
    let r := turn s pgid mode stage now seen.group seen.escalated
    obtain ⟨rfl, rfl⟩ : ⟨r.next?, now + r.pauseMs⟩ = after ∧ r = out := Prod.mk.inj (Except.ok.inj ht)
    exact ⟨stage, rfl, took s pgid mode stage (seen.moment now), rfl⟩

theorem steps_onClock (s : Settings.Reaping) (pgid : Int) (mode : ReapMode) (stage : Stage) (now : Nat)
    (seen : Sight) (sights : List Sight) :
    ∃ r, Took s pgid mode (seen.moment now) stage r ∧
      steps (onClock s pgid mode) ⟨some stage, now⟩ (seen :: sights) =
        ⟨⟨some stage, now⟩, seen, r, ⟨r.next?, now + r.pauseMs⟩⟩ ::
          steps (onClock s pgid mode) ⟨r.next?, now + r.pauseMs⟩ sights :=
  ⟨_, took s pgid mode stage (seen.moment now), rfl⟩

theorem steps_onClock_none (s : Settings.Reaping) (pgid : Int) (mode : ReapMode) (now : Nat)
    (sights : List Sight) : steps (onClock s pgid mode) ⟨none, now⟩ sights = [] := by
  cases sights <;> rfl

-- ---------------------------------------------------------------------------
-- Waiting by polls
-- ---------------------------------------------------------------------------

/-- How many pauses there are between the polls of a wait that is not cut short. -/
def polls (s : Settings.Reaping) (ms : Nat) : Nat := ms ⌈/⌉ s.pollMs

def waitSpan (s : Settings.Reaping) (ms : Nat) : Nat := polls s ms * s.pollMs

theorem polls_of_passed (h : deadline ≤ now) : polls s (deadline - now) = 0 := by
  rw [Nat.sub_eq_zero_of_le h, polls, zero_ceilDiv]

theorem polls_of_early (hp : 1 ≤ s.pollMs) (h : now < deadline) :
    polls s (deadline - now) = polls s (deadline - (now + s.pollMs)) + 1 := by
  simp only [polls, Nat.ceilDiv_eq_add_pred_div]
  rcases Nat.lt_or_ge (now + s.pollMs) deadline with hmore | hlast
  · have hsplit : deadline - now + s.pollMs - 1 =
        deadline - (now + s.pollMs) + s.pollMs - 1 + s.pollMs := by omega
    rw [hsplit, Nat.add_div_right _ hp]
  · -- the next poll is the last
    have hnone : (deadline - (now + s.pollMs) + s.pollMs - 1) / s.pollMs = 0 :=
      Nat.div_eq_of_lt (by omega)
    have hone : (deadline - now + s.pollMs - 1) / s.pollMs = 1 :=
      Nat.div_eq_of_lt_le (by omega) (by omega)
    rw [hnone, hone]

theorem waitSpan_of_passed (h : deadline ≤ now) : waitSpan s (deadline - now) = 0 := by
  rw [waitSpan, polls_of_passed h, Nat.zero_mul]

theorem waitSpan_of_early (hp : 1 ≤ s.pollMs) (h : now < deadline) :
    waitSpan s (deadline - now) = s.pollMs + waitSpan s (deadline - (now + s.pollMs)) := by
  rw [waitSpan, polls_of_early hp h, Nat.succ_mul, Nat.add_comm]
  rfl

theorem le_waitSpan (hp : 1 ≤ s.pollMs) (ms : Nat) : ms ≤ waitSpan s ms := by
  have h : ms ≤ s.pollMs • polls s ms := le_smul_ceilDiv (show 0 < s.pollMs from hp)
  rwa [smul_eq_mul, Nat.mul_comm] at h

-- ---------------------------------------------------------------------------
-- Stages in time
-- ---------------------------------------------------------------------------

/-- The reap that began at `start` can stand at this stage at time `now`. -/
def Stage.Fits (s : Settings.Reaping) (mode : ReapMode) (start now : Nat) : Stage → Prop
  | .opening => now = start
  | .grace deadline => mode = .graceful ∧ deadline = start + s.graceMs ∧ 1 ≤ s.maxAttempts
  | .strike attempt | .kill attempt _ => 1 ≤ attempt ∧ attempt ≤ s.maxAttempts
  | .lastLook attempts => attempts = s.maxAttempts

theorem Took.fits (ht : Took s pgid mode m stage r) (hf : stage.Fits s mode start m.now)
    (hn : r.next? = some next) : next.Fits s mode start (m.now + r.pauseMs) := by
  cases ht with
  | vacant | left | fell | late | survived => cases hn
  | barred _ hzero =>
    cases hn
    exact hzero.symm
  | asked _ hpos hmode =>
    cases hn
    exact ⟨hmode, by rw [show m.now = start from hf], hpos⟩
  | struck _ hpos =>
    cases hn
    exact ⟨Nat.le_refl 1, hpos⟩
  | pressed =>
    cases hn
    exact ⟨Nat.le_refl 1, hf.2.2⟩
  | waited | again | polled =>
    cases hn
    exact hf
  | @outlived attempt =>
    cases hn
    obtain ⟨hone, hlimit⟩ := hf
    rw [afterAttempt_eq]
    split
    · rename_i hlast
      exact Nat.le_antisymm hlimit hlast
    · rename_i hmore
      exact ⟨by omega, by omega⟩

-- ---------------------------------------------------------------------------
-- Turns left
-- ---------------------------------------------------------------------------

/-- How many turns remain at most: a poll more than there are pauses in a wait, one turn for each signal, and
one for either end. -/
def Stage.turnsLeft (s : Settings.Reaping) (now : Nat) : Stage → Nat
  | .opening => polls s s.graceMs + 2 + s.maxAttempts * (polls s s.killTimeoutMs + 2)
  | .grace deadline => polls s (deadline - now) + 1 + s.maxAttempts * (polls s s.killTimeoutMs + 2)
  | .strike attempt => (s.maxAttempts + 1 - attempt) * (polls s s.killTimeoutMs + 2) + 1
  | .kill attempt deadline =>
    polls s (deadline - now) + 2 + (s.maxAttempts - attempt) * (polls s s.killTimeoutMs + 2)
  | .lastLook _ => 1

theorem turnsLeft_pos (s : Settings.Reaping) (now : Nat) (stage : Stage) :
    0 < stage.turnsLeft s now := by
  cases stage <;> simp only [Stage.turnsLeft] <;> omega

theorem turnsLeft_kill {attempt : Nat} (h : attempt ≤ s.maxAttempts) :
    (Stage.kill attempt (now + s.killTimeoutMs)).turnsLeft s now =
      (s.maxAttempts + 1 - attempt) * (polls s s.killTimeoutMs + 2) := by
  rw [Stage.turnsLeft, Nat.add_sub_cancel_left, Nat.sub_add_comm h, Nat.succ_mul, Nat.add_comm]

theorem turnsLeft_afterAttempt (s : Settings.Reaping) (now attempt : Nat) :
    (afterAttempt s attempt).turnsLeft s now =
      (s.maxAttempts - attempt) * (polls s s.killTimeoutMs + 2) + 1 := by
  rw [afterAttempt_eq]
  split
  · rename_i hlast
    simp [Stage.turnsLeft, Nat.sub_eq_zero_of_le hlast]
  · rw [Stage.turnsLeft, Nat.add_sub_add_right]

theorem Took.turnsLeft_lt (hp : 1 ≤ s.pollMs) (ht : Took s pgid mode m stage r)
    (hf : stage.Fits s mode start m.now) (hn : r.next? = some next) :
    next.turnsLeft s (m.now + r.pauseMs) < stage.turnsLeft s m.now := by
  cases ht with
  | vacant | left | fell | late | survived => cases hn
  | barred =>
    cases hn
    simp only [Stage.turnsLeft]
    omega
  | asked =>
    cases hn
    simp only [Stage.turnsLeft, Turn.pauseMs, Nat.add_zero, Nat.add_sub_cancel_left]
    omega
  | struck _ hpos =>
    cases hn
    rw [show m.now + Turn.pauseMs (.send pgid .kill _) = m.now from rfl, turnsLeft_kill hpos]
    simp only [Stage.turnsLeft, Nat.add_sub_cancel]
    omega
  | pressed =>
    cases hn
    rw [show m.now + Turn.pauseMs (.send pgid .kill _) = m.now from rfl, turnsLeft_kill hf.2.2]
    simp only [Stage.turnsLeft, Nat.add_sub_cancel]
    omega
  | again =>
    cases hn
    rw [show m.now + Turn.pauseMs (.send pgid .kill _) = m.now from rfl, turnsLeft_kill hf.2]
    exact Nat.lt_succ_self _
  | waited _ hearly | polled _ hearly =>
    cases hn
    simp only [Stage.turnsLeft, Turn.pauseMs, polls_of_early hp hearly]
    omega
  | outlived _ hlate =>
    cases hn
    rw [turnsLeft_afterAttempt]
    simp only [Stage.turnsLeft, polls_of_passed hlate]
    omega

theorem ends_on_clock (hp : 1 ≤ s.pollMs) (hf : stage.Fits s mode start now) {sights : List Sight}
    (h : stage.turnsLeft s now ≤ sights.length) :
    ∃ earlier last result, steps (onClock s pgid mode) ⟨some stage, now⟩ sights = earlier ++ [last] ∧
      last.output.result? = some result := by
  induction sights generalizing stage now with
  | nil => exact absurd (turnsLeft_pos s now stage) (Nat.not_lt_of_le h)
  | cons seen sights ih =>
    obtain ⟨r, ht, hsteps⟩ := steps_onClock s pgid mode stage now seen sights
    rw [hsteps]
    cases hn : r.next? with
    | none =>
      obtain ⟨result, hr⟩ := result?_of_next?_none hn
      exact ⟨[], _, result, by rw [steps_onClock_none, List.nil_append], hr⟩
    | some next =>
      have hfits : next.Fits s mode start (now + r.pauseMs) := ht.fits hf hn
      have hleft : next.turnsLeft s (now + r.pauseMs) < stage.turnsLeft s now := ht.turnsLeft_lt hp hf hn
      obtain ⟨earlier, last, result, hlater, hr⟩ :=
        ih hfits (Nat.le_of_lt_succ (Nat.lt_of_lt_of_le hleft h))
      exact ⟨_ :: earlier, last, result, by rw [hlater, List.cons_append], hr⟩

theorem polls_le (hp : 1 ≤ s.pollMs) (ms : Nat) : polls s ms ≤ ms / s.pollMs + 1 := by
  rw [polls, Nat.ceilDiv_eq_add_pred_div, ← Nat.add_div_right ms hp]
  exact Nat.div_le_div_right (Nat.sub_le _ 1)

theorem turnsLeft_opening_le (hp : 1 ≤ s.pollMs) (now : Nat) :
    Stage.opening.turnsLeft s now ≤ Rehearsal.turnBound s := by
  have hgrace := polls_le hp s.graceMs
  have hkill : s.maxAttempts * (polls s s.killTimeoutMs + 2) ≤
      (s.maxAttempts + 1) * (s.killTimeoutMs / s.pollMs + 4) := by
    have hpolls := polls_le hp s.killTimeoutMs
    exact Nat.mul_le_mul (Nat.le_succ _) (by omega)
  simp only [Stage.turnsLeft, Rehearsal.turnBound, Nat.max_eq_left hp]
  omega

end Vigil.Reap
