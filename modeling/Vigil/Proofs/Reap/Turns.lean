import Vigil.Reap.Group

/-!
# Turns of a reap

`Reap.Took` lists everything that one turn can come to, with the conditions under which it does, and
`Reap.took` reads a turn as one of them. What follows about turns is by cases on it.
-/

namespace Vigil.Reap

variable {s : Settings.Reaping} {pgid : Int} {mode : ReapMode} {stage next : Stage}

-- ---------------------------------------------------------------------------
-- One turn
-- ---------------------------------------------------------------------------

def Turn.next? : Turn → Option Stage
  | .send _ _ next | .pause _ next => some next
  | .done _ | .failed _ => none

/-- What a turn finds: the time, what a look at the group answers, and whether the grace period is to be
cut short. -/
structure Moment where
  now : Nat
  group : GroupProbe
  escalated : Bool

def Moment.members (m : Moment) (pgid : Int) : List Int := liveMembers pgid m.group

inductive Took (s : Settings.Reaping) (pgid : Int) (mode : ReapMode) (m : Moment) : Stage → Turn → Prop
  | vacant : m.members pgid = [] → Took s pgid mode m .opening (.done .alreadyReaped)
  | barred : m.members pgid ≠ [] → s.maxAttempts = 0 →
      Took s pgid mode m .opening (.pause 0 (.lastLook 0))
  | asked : m.members pgid ≠ [] → 0 < s.maxAttempts → mode = .graceful → m.escalated = false →
      Took s pgid mode m .opening (.send pgid .terminate (.grace (m.now + s.graceMs)))
  | struck : m.members pgid ≠ [] → 0 < s.maxAttempts → ¬ (mode = .graceful ∧ m.escalated = false) →
      Took s pgid mode m .opening (.send pgid .kill (.kill 1 (m.now + s.killTimeoutMs)))
  | left {deadline} : m.members pgid = [] →
      Took s pgid mode m (.grace deadline) (.done (.terminated false 1))
  | pressed {deadline} : m.members pgid ≠ [] → deadline ≤ m.now ∨ m.escalated →
      Took s pgid mode m (.grace deadline) (.send pgid .kill (.kill 1 (m.now + s.killTimeoutMs)))
  | waited {deadline} : m.members pgid ≠ [] → m.now < deadline →
      Took s pgid mode m (.grace deadline) (.pause s.pollMs (.grace deadline))
  | again {attempt} :
      Took s pgid mode m (.strike attempt)
        (.send pgid .kill (.kill attempt (m.now + s.killTimeoutMs)))
  | fell {attempt deadline} : m.members pgid = [] →
      Took s pgid mode m (.kill attempt deadline) (.done (.terminated true attempt))
  | outlived {attempt deadline} : m.members pgid ≠ [] → deadline ≤ m.now →
      Took s pgid mode m (.kill attempt deadline)
        (.pause (backoff s.pollMs attempt longestPause) (afterAttempt s attempt))
  | polled {attempt deadline} : m.members pgid ≠ [] → m.now < deadline →
      Took s pgid mode m (.kill attempt deadline) (.pause s.pollMs (.kill attempt deadline))
  | late {attempts} : m.members pgid = [] →
      Took s pgid mode m (.lastLook attempts) (.done (.terminated true attempts))
  | survived {attempts} : m.members pgid ≠ [] →
      Took s pgid mode m (.lastLook attempts) (.failed ⟨pgid, m.members pgid, attempts⟩)

theorem begin_took {m : Moment} (hm : m.members pgid ≠ []) :
    Took s pgid mode m .opening (begin s pgid mode m.now m.escalated) := by
  by_cases hn : s.maxAttempts = 0
  · have hb : begin s pgid mode m.now m.escalated = .pause 0 (.lastLook 0) := by
      simp [begin, Attempts.next, hn]
    rw [hb]
    exact .barred hm hn
  · have hpos := Nat.pos_of_ne_zero hn
    have hb : begin s pgid mode m.now m.escalated =
        if mode = .graceful && !m.escalated then
          .send pgid .terminate (.grace (m.now + s.graceMs))
        else strike s pgid 1 m.now := by
      simp [begin, Attempts.next, hn]
    rw [hb]
    split
    · rename_i hpolite
      simp only [Bool.and_eq_true, decide_eq_true_eq, Bool.not_eq_true'] at hpolite
      exact .asked hm hpos hpolite.1 hpolite.2
    · rename_i hfirm
      exact .struck hm hpos (by simpa using hfirm)

theorem took (s : Settings.Reaping) (pgid : Int) (mode : ReapMode) (stage : Stage) (m : Moment) :
    Took s pgid mode m stage (turn s pgid mode stage m.now m.group m.escalated) := by
  cases stage with
  | opening =>
    simp only [turn]
    split
    · rename_i hm
      exact .vacant hm
    · rename_i hm
      exact begin_took hm
  | grace deadline =>
    simp only [turn]
    split
    · rename_i hm
      exact .left hm
    · rename_i hm
      split
      · rename_i hpress
        exact .pressed hm (by simpa using hpress)
      · rename_i hwait
        simp only [Bool.or_eq_true, decide_eq_true_eq, not_or, Nat.not_le] at hwait
        exact .waited hm hwait.1
  | strike attempt => exact .again
  | kill attempt deadline =>
    simp only [turn]
    split
    · rename_i hm
      exact .fell hm
    · rename_i hm
      split
      · rename_i hlate
        exact .outlived hm hlate
      · rename_i hearly
        exact .polled hm (Nat.lt_of_not_le hearly)
  | lastLook attempts =>
    simp only [turn]
    split
    · rename_i hm
      exact .late hm
    · rename_i hm
      exact .survived hm

theorem afterAttempt_eq (s : Settings.Reaping) (attempt : Nat) :
    afterAttempt s attempt =
      if s.maxAttempts ≤ attempt then .lastLook attempt else .strike (attempt + 1) := by
  by_cases h : s.maxAttempts ≤ attempt <;> simp [afterAttempt, Attempts.next, h]

theorem afterAttempt_ne_opening : afterAttempt s attempt ≠ .opening := by
  rw [afterAttempt_eq]
  split <;> simp

theorem Took.next_ne_opening {m : Moment} {r : Turn} (ht : Took s pgid mode m stage r)
    (hn : r.next? = some next) : next ≠ .opening := by
  cases ht with
  | outlived => exact Option.some.inj hn ▸ afterAttempt_ne_opening
  | vacant | left | fell | late | survived => cases hn
  | _ =>
    cases hn
    simp

theorem ne_opening_of_turn (h : turn s pgid mode stage now group escalated = r)
    (hn : r.next? = some next) : next ≠ .opening := by
  have ht := took s pgid mode stage ⟨now, group, escalated⟩
  rw [h] at ht
  exact ht.next_ne_opening hn

/-- With an attempt to make, only the first turn of a reap can find that there is nothing to do, and it
neither waits nor returns anything else. -/
theorem opening_iff (hn : 1 ≤ s.maxAttempts) (h : turn s pgid mode stage now group escalated = r)
    (hsend : ∀ target signal next, r ≠ .send target signal next) :
    stage = .opening ↔ r = .done .alreadyReaped := by
  have ht := took s pgid mode stage ⟨now, group, escalated⟩
  rw [h] at ht
  cases ht with
  | vacant => simp
  | barred _ hzero => omega
  | asked | struck | pressed | again => exact absurd rfl (hsend _ _ _)
  | left | waited | fell | outlived | polled | late | survived => simp

theorem turn_target (h : turn s pgid mode stage now group escalated = .send target signal next) :
    target = pgid := by
  have ht := took s pgid mode stage ⟨now, group, escalated⟩
  rw [h] at ht
  cases ht <;> rfl

end Vigil.Reap
