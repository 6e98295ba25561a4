import Vigil.Proofs.Reap.Duration

/-!
# Rehearsals run reaps

`Rehearsal.runTurns_steps`: a rehearsed reap takes the turns of a reap on the clock. So a rehearsal reports on
each of its reaps, and within the time that any reap ends in: `Rehearsal.reap_reports`.
-/

namespace Vigil.Rehearsal

open Reap

variable {s : Settings.Reaping} {pgid : Int} {mode : ReapMode} {escalated : Nat → Bool} {now : Nat}
  {stage next : Stage} {h : Host}

-- ---------------------------------------------------------------------------
-- Turns
-- ---------------------------------------------------------------------------

def sightAt (escalated : Nat → Bool) (pgid : Int) (h : Host) (now : Nat) : Sight :=
  ⟨h.groupMembers pgid now, escalated now⟩

theorem runTurns_of_next? (turns : Nat) {r : Turn} (hturn : turn s pgid mode stage now (h.groupMembers pgid now)
    (escalated now) = r) (hn : r.next? = some next) :
    ∃ h', runTurns s pgid mode escalated (turns + 1) stage h now =
      runTurns s pgid mode escalated turns next h' (now + r.pauseMs) := by
  rw [runTurns, hturn]
  cases r with
  | send | pause =>
    cases hn
    exact ⟨_, rfl⟩
  | done | failed => cases hn

theorem runTurns_of_result? (turns : Nat) {r : Turn} {result : Result} (hturn : turn s pgid mode stage now
    (h.groupMembers pgid now) (escalated now) = r) (hr : r.result? = some result) :
    runTurns s pgid mode escalated (turns + 1) stage h now = (h, now, some result) := by
  rw [runTurns, hturn]
  cases r with
  | send | pause => cases hr
  | done | failed =>
    cases hr
    rfl

theorem runTurns_steps (s : Settings.Reaping) (pgid : Int) (mode : ReapMode) (escalated : Nat → Bool)
    (turns : Nat) (stage : Stage) (h : Host) (now : Nat) :
    ∃ sights : List Sight, sights.length = turns ∧
      (∀ t ∈ steps (onClock s pgid mode) ⟨some stage, now⟩ sights,
        t.event.escalated = escalated t.before.now) ∧
      ∀ earlier last result,
        steps (onClock s pgid mode) ⟨some stage, now⟩ sights = earlier ++ [last] →
        last.output.result? = some result →
        ∃ h', runTurns s pgid mode escalated turns stage h now = (h', last.before.now, some result) := by
  induction turns generalizing stage h now with
  | zero => exact ⟨[], rfl, by simp [steps], by simp [steps]⟩
  | succ turns ih =>
    let seen := sightAt escalated pgid h now
    let r := turn s pgid mode stage now (h.groupMembers pgid now) (escalated now)
    have hstep : onClock s pgid mode ⟨some stage, now⟩ seen =
        .ok (⟨r.next?, now + r.pauseMs⟩, r) := rfl
    cases hn : r.next? with
    | none =>
      obtain ⟨result, hr⟩ := result?_of_next?_none hn
      have hsteps : steps (onClock s pgid mode) ⟨some stage, now⟩ (seen :: List.replicate turns seen) =
          [⟨⟨some stage, now⟩, seen, r, ⟨none, now + r.pauseMs⟩⟩] := by
        rw [steps_cons hstep, hn, steps_onClock_none]
      refine ⟨seen :: List.replicate turns seen, by simp, ?_, ?_⟩
      · rw [hsteps]
        simp [seen, sightAt]
      · intro earlier last result' hlast hresult
        rw [hsteps] at hlast
        obtain rfl : _ = last := by simpa using congrArg List.getLast? hlast
        exact ⟨h, runTurns_of_result? turns rfl hresult⟩
    | some next =>
      obtain ⟨h', hrun⟩ := runTurns_of_next? turns rfl hn
      obtain ⟨sights, hlength, hflags, hresult⟩ := ih next h' (now + r.pauseMs)
      refine ⟨seen :: sights, by simp [hlength], ?_, ?_⟩
      · rw [steps_cons hstep, hn]
        intro t ht
        rcases List.mem_cons.mp ht with rfl | ht
        · rfl
        · exact hflags t ht
      · intro earlier last result hlast hr
        rw [steps_cons hstep, hn] at hlast
        rcases List.cons_eq_append_iff.mp hlast with ⟨rfl, hone⟩ | ⟨earlier, rfl, hlater⟩
        · obtain ⟨rfl, -⟩ := List.cons_eq_cons.mp hone
          cases (result?_of_next?_some hn).symm.trans hr
        · rw [hrun]
          exact hresult earlier last result hlater hr

-- ---------------------------------------------------------------------------
-- Reaps
-- ---------------------------------------------------------------------------

/-- A rehearsed reap is reported on and ends in time. It takes all its time if it fails after an attempt and
is not cut short. -/
theorem reap_reports (hp : 1 ≤ s.pollMs) (pgid : Int) (mode : ReapMode) (escalated : Nat → Bool) (h : Host)
    (now : Nat) :
    ∃ h' stop result, reap s pgid mode escalated h now = (h', some ⟨now, stop, result⟩) ∧
      stop ≤ now + longest s mode ∧
      (1 ≤ s.maxAttempts → (∃ failure, result = .inr failure) →
        (mode = .graceful → ∀ time < now + waitSpan s s.graceMs, escalated time = false) →
        stop = now + longest s mode) := by
  obtain ⟨sights, hlength, hflags, hreturns⟩ :=
    runTurns_steps s pgid mode escalated (turnBound s) .opening h now
  obtain ⟨earlier, last, result, hsteps, hresult, hle, hexact⟩ :=
    ends_in_time hp pgid mode now sights (Nat.le_of_eq hlength.symm)
  obtain ⟨h', hrun⟩ := hreturns earlier last result hsteps hresult
  refine ⟨h', last.before.now, result, by rw [reap, hrun]; rfl, hle, fun hpos hfailed hcalm => ?_⟩
  refine hexact hpos (.inl hfailed) ?_
  rintro t ht ⟨hmode, hearly, hescalated⟩
  have hflag : t.event.escalated = escalated t.before.now := hflags t (by simp [hsteps, ht])
  rw [hcalm hmode t.before.now hearly] at hflag
  exact absurd (hescalated.symm.trans hflag) (by decide)

end Vigil.Rehearsal
