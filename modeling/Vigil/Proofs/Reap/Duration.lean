import Mathlib.Algebra.BigOperators.Intervals
import Vigil.Proofs.Reap.Backoff
import Vigil.Proofs.Reap.Clock

/-!
# How long a reap takes

`Reap.Stage.left` is the time that a reap can still take from a stage on. A turn uses up as much of it as it
waits, or more if it cuts something short. `Reap.lasts_at_most`: a reap ends within the sum of all its waits
and pauses, and one that uses up all its attempts, with nothing cut short, takes just that long.
-/

namespace Vigil.Reap

variable {s : Settings.Reaping} {pgid : Int} {mode : ReapMode} {stage next : Stage} {m : Moment} {r : Turn}
  {start attempt : Nat}

-- ---------------------------------------------------------------------------
-- Time left
-- ---------------------------------------------------------------------------

def attemptSpan (s : Settings.Reaping) (attempt : Nat) : Nat :=
  waitSpan s s.killTimeoutMs + min (s.pollMs * 2 ^ attempt) longestPause

def attemptsFrom (s : Settings.Reaping) (first : Nat) : Nat :=
  ∑ attempt ∈ Finset.Icc first s.maxAttempts, attemptSpan s attempt

/-- How long a reap takes that waits for everything it can wait for. -/
def longest (s : Settings.Reaping) (mode : ReapMode) : Nat :=
  (if mode = .graceful then waitSpan s s.graceMs else 0) +
    ∑ attempt ∈ Finset.Icc 1 s.maxAttempts,
      (waitSpan s s.killTimeoutMs + min (s.pollMs * 2 ^ attempt) longestPause)

theorem longest_eq (s : Settings.Reaping) (mode : ReapMode) :
    longest s mode = (if mode = .graceful then waitSpan s s.graceMs else 0) + attemptsFrom s 1 := rfl

theorem attemptsFrom_of_le (h : attempt ≤ s.maxAttempts) :
    attemptsFrom s attempt = attemptSpan s attempt + attemptsFrom s (attempt + 1) := by
  rw [attemptsFrom, attemptsFrom, Finset.Icc_add_one_left_eq_Ioc, Finset.add_sum_Ioc_eq_sum_Icc h]

theorem attemptsFrom_of_lt (h : s.maxAttempts < attempt) : attemptsFrom s attempt = 0 := by
  rw [attemptsFrom, Finset.Icc_eq_empty_of_lt h, Finset.sum_empty]

def Stage.left (s : Settings.Reaping) (mode : ReapMode) (now : Nat) : Stage → Nat
  | .opening => longest s mode
  | .grace deadline => waitSpan s (deadline - now) + attemptsFrom s 1
  | .strike attempt => attemptsFrom s attempt
  | .kill attempt deadline =>
    waitSpan s (deadline - now) + backoff s.pollMs attempt longestPause + attemptsFrom s (attempt + 1)
  | .lastLook _ => 0

theorem left_kill {now : Nat} (h : attempt ≤ s.maxAttempts) :
    (Stage.kill attempt (now + s.killTimeoutMs)).left s mode now = attemptsFrom s attempt := by
  rw [Stage.left, Nat.add_sub_cancel_left, attemptsFrom_of_le h, attemptSpan,
    backoff_eq _ _ (by decide)]

theorem left_afterAttempt (s : Settings.Reaping) (mode : ReapMode) (now attempt : Nat) :
    (afterAttempt s attempt).left s mode now = attemptsFrom s (attempt + 1) := by
  rw [afterAttempt_eq]
  split
  · rename_i hlast
    rw [Stage.left, attemptsFrom_of_lt (Nat.lt_succ_of_le hlast)]
  · rfl

/-- The turn finds that the grace period is to be cut short, before its last poll. -/
def Hurried (s : Settings.Reaping) (mode : ReapMode) (start : Nat) (m : Moment) : Prop :=
  mode = .graceful ∧ m.now < start + waitSpan s s.graceMs ∧ m.escalated = true

theorem longest_of_firm (hnow : m.now = start) (hfirm : ¬ (mode = .graceful ∧ m.escalated = false))
    (hcalm : ¬ Hurried s mode start m) : longest s mode = attemptsFrom s 1 := by
  have hnone : (if mode = .graceful then waitSpan s s.graceMs else 0) = 0 := by
    split
    · rename_i hmode
      by_contra hsome
      exact hcalm ⟨hmode, by omega, by simpa [hmode] using hfirm⟩
    · rfl
  rw [longest_eq, hnone, Nat.zero_add]

theorem passed_of_pressed {deadline : Nat} (hp : 1 ≤ s.pollMs)
    (hf : (Stage.grace deadline).Fits s mode start m.now) (hpress : deadline ≤ m.now ∨ m.escalated)
    (hcalm : ¬ Hurried s mode start m) : deadline ≤ m.now := by
  obtain ⟨hmode, hdeadline, -⟩ := hf
  rcases hpress with hpassed | hescalated
  · exact hpassed
  · have hlate : ¬ m.now < start + waitSpan s s.graceMs := fun hearly => hcalm ⟨hmode, hearly, hescalated⟩
    have hspan := le_waitSpan hp s.graceMs
    omega

theorem Took.left_le (hp : 1 ≤ s.pollMs) (ht : Took s pgid mode m stage r)
    (hf : stage.Fits s mode start m.now) (hn : r.next? = some next) :
    r.pauseMs + next.left s mode (m.now + r.pauseMs) ≤ stage.left s mode m.now ∧
      (1 ≤ s.maxAttempts → ¬ Hurried s mode start m →
        r.pauseMs + next.left s mode (m.now + r.pauseMs) = stage.left s mode m.now) := by
  cases ht with
  | vacant | left | fell | late | survived => cases hn
  | barred _ hzero =>
    cases hn
    refine ⟨Nat.zero_le _, fun hpos => ?_⟩
    exact absurd hzero (Nat.ne_of_gt hpos)
  | asked _ _ hmode =>
    cases hn
    have hexact : (Stage.grace (m.now + s.graceMs)).left s mode m.now = longest s mode := by
      simp [Stage.left, longest_eq, hmode]
    simp only [Turn.pauseMs, Nat.add_zero, Nat.zero_add, hexact]
    exact ⟨Nat.le_refl _, fun _ _ => rfl⟩
  | struck _ hpos hfirm =>
    cases hn
    simp only [Turn.pauseMs, Nat.add_zero, Nat.zero_add, left_kill hpos]
    exact ⟨Nat.le_add_left _ _, fun _ hcalm => (longest_of_firm hf hfirm hcalm).symm⟩
  | pressed _ hpress =>
    cases hn
    simp only [Turn.pauseMs, Nat.add_zero, Nat.zero_add, left_kill hf.2.2]
    refine ⟨Nat.le_add_left _ _, fun _ hcalm => ?_⟩
    rw [Stage.left, waitSpan_of_passed (passed_of_pressed hp hf hpress hcalm), Nat.zero_add]
  | again =>
    cases hn
    simp only [Turn.pauseMs, Nat.add_zero, Nat.zero_add, left_kill hf.2]
    exact ⟨Nat.le_refl _, fun _ _ => rfl⟩
  | waited _ hearly | polled _ hearly =>
    cases hn
    have hexact := waitSpan_of_early hp hearly
    simp only [Turn.pauseMs, Stage.left]
    omega
  | outlived _ hpassed =>
    cases hn
    simp only [Turn.pauseMs, left_afterAttempt]
    rw [Stage.left, waitSpan_of_passed hpassed, Nat.zero_add]
    exact ⟨Nat.le_refl _, fun _ _ => rfl⟩

theorem left_of_failed {failure : ReapFailure} (ht : Took s pgid mode m stage r)
    (hr : r.result? = some (.inr failure)) : stage.left s mode m.now = 0 := by
  cases ht with
  | survived => rfl
  | _ => cases hr

-- ---------------------------------------------------------------------------
-- Whole reaps
-- ---------------------------------------------------------------------------

variable {ts : List ClockStep} {c : Clocked}

/-- What has passed and what is left come to the longest time at most, and to just that long if there is
an attempt to make and no turn has hurried. -/
theorem path_left (hp : 1 ≤ s.pollMs) (h : Path (onClock s pgid mode) ⟨some .opening, start⟩ ts c)
    (hc : c.stage = some stage) :
    stage.Fits s mode start c.now ∧ c.now + stage.left s mode c.now ≤ start + longest s mode ∧
      (1 ≤ s.maxAttempts → (∀ t ∈ ts, ¬ Hurried s mode start (t.event.moment t.before.now)) →
        c.now + stage.left s mode c.now = start + longest s mode) := by
  induction h generalizing stage with
  | nil =>
    cases hc
    exact ⟨rfl, Nat.le_refl _, fun _ _ => rfl⟩
  | @snoc ts t _ ht ih =>
    obtain ⟨before, hbefore, htook, hafter⟩ := clockStep_took ht
    obtain ⟨hfits, hle, heq⟩ := ih hbefore
    rw [hafter] at hc ⊢
    obtain ⟨hle', heq'⟩ := htook.left_le hp hfits hc
    refine ⟨htook.fits hfits hc, ?_, fun hpos hcalm => ?_⟩
    · rw [Sight.moment_now] at hle'
      dsimp only
      omega
    · have h := heq hpos fun u hu => hcalm u (List.mem_append_left _ hu)
      have h' := heq' hpos (hcalm t (by simp))
      rw [Sight.moment_now] at h'
      dsimp only
      omega

theorem ends_in_time (hp : 1 ≤ s.pollMs) (pgid : Int) (mode : ReapMode) (start : Nat) (sights : List Sight)
    (h : Rehearsal.turnBound s ≤ sights.length) :
    ∃ earlier last result, steps (onClock s pgid mode) ⟨some .opening, start⟩ sights = earlier ++ [last] ∧
      last.output.result? = some result ∧ last.before.now ≤ start + longest s mode ∧
      (1 ≤ s.maxAttempts →
        (∃ failure, result = .inr failure) ∨ (∃ attempts, last.before.stage = some (.lastLook attempts)) →
        (∀ t ∈ earlier, ¬ Hurried s mode start (t.event.moment t.before.now)) →
        last.before.now = start + longest s mode) := by
  have hfits : Stage.opening.Fits s mode start start := rfl
  obtain ⟨earlier, last, result, hsteps, hresult⟩ :=
    ends_on_clock hp hfits (Nat.le_trans (turnsLeft_opening_le hp start) h)
  obtain ⟨hpath, hlast, -⟩ := steps_split hsteps
  obtain ⟨stage, hstage, htook, -⟩ := clockStep_took hlast
  obtain ⟨-, hle, heq⟩ := path_left hp hpath hstage
  refine ⟨earlier, last, result, hsteps, hresult, by omega, fun hpos hend hcalm => ?_⟩
  have hleft : stage.left s mode last.before.now = 0 := by
    rcases hend with ⟨failure, rfl⟩ | ⟨attempts, hlook⟩
    · exact left_of_failed htook hresult
    · obtain rfl := Option.some.inj (hstage.symm.trans hlook)
      rfl
  have h := heq hpos hcalm
  omega

/-- A reap ends, and no later than `longest` allows. It takes just that long if it has an attempt to make, is
not cut short, and either fails or comes to the look after its last attempt. -/
theorem lasts_at_most (s : Settings.Reaping) (pgid : Int) (mode : ReapMode) (start : Nat)
    (sight : Nat → Sight) (hp : 1 ≤ s.pollMs) :
    ∃ last result, (course s pgid mode start sight).getLast? = some last ∧
      last.output.result? = some result ∧ last.before.now ≤ start + longest s mode ∧
      (1 ≤ s.maxAttempts →
        (∃ failure, result = .inr failure) ∨ (∃ attempts, last.before.stage = some (.lastLook attempts)) →
        (mode = .graceful → ∀ t ∈ course s pgid mode start sight,
          t.before.now < start + waitSpan s s.graceMs → t.event.escalated = false) →
        last.before.now = start + longest s mode) := by
  obtain ⟨earlier, last, result, hcourse, hresult, hle, hexact⟩ :=
    ends_in_time hp pgid mode start ((List.range (Rehearsal.turnBound s)).map sight) (by simp)
  rw [← course] at hcourse
  refine ⟨last, result, by simp [hcourse], hresult, hle, fun hpos hend hcalm => hexact hpos hend ?_⟩
  rintro t ht ⟨hmode, hearly, hescalated⟩
  have hfalse := hcalm hmode t (by simp [hcourse, ht]) hearly
  exact absurd (hescalated.symm.trans hfalse) (by decide)

def unmovedSight (_ : Nat) : Sight := ⟨.ok [42, 43], false⟩

theorem lasts_at_most_unmoved :
    1 ≤ (⟨50, 50, 20, 2⟩ : Settings.Reaping).pollMs ∧ longest ⟨50, 50, 20, 2⟩ .graceful = 300 ∧
      ∃ last, (course ⟨50, 50, 20, 2⟩ 42 .graceful 7 unmovedSight).getLast? = some last ∧
        last.output = .failed ⟨42, [42, 43], 2⟩ ∧ last.before.now = 7 + 300 := by
  have hlongest : longest ⟨50, 50, 20, 2⟩ .graceful = 300 := by decide
  obtain ⟨last, result, hlast, -, -, hexact⟩ :=
    lasts_at_most ⟨50, 50, 20, 2⟩ 42 .graceful 7 unmovedSight (by decide)
  have hcalm : ∀ t ∈ course ⟨50, 50, 20, 2⟩ 42 .graceful 7 unmovedSight, t.event.escalated = false := by
    intro t ht
    obtain ⟨i, -, hi⟩ := List.mem_map.mp (event_mem_of_mem_steps ht)
    rw [← hi, unmovedSight]
  obtain ⟨hstage, houtput⟩ : last.before.stage = some (.lastLook 2) ∧
      last.output = .failed ⟨42, [42, 43], 2⟩ := by
    obtain rfl := Option.some.inj hlast
    exact ⟨rfl, rfl⟩
  refine ⟨by decide, hlongest, last, hlast, houtput, ?_⟩
  rw [← hlongest]
  exact hexact (by decide) (.inr ⟨2, hstage⟩) fun _ t ht _ => hcalm t ht

end Vigil.Reap
