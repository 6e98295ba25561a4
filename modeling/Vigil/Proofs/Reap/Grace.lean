import Vigil.Proofs.Reap.Clock

/-!
# The grace period

The polite signal is followed by looks at the group, one at each poll. The last of them comes at the deadline
or, if no poll falls on it, at the next poll. `Reap.grace_period_kept`: a group that empties by the deadline is
not killed, since the last look finds it empty, and a group that outlives the last look is killed at once.
-/

namespace Vigil.Reap

variable {s : Settings.Reaping} {pgid : Int} {mode : ReapMode} {stage next : Stage} {m : Moment} {r : Turn}
  {start now deadline : Nat} {t : ClockStep} {ts : List ClockStep} {vacant : Nat → Prop}

-- ---------------------------------------------------------------------------
-- Signals in time
-- ---------------------------------------------------------------------------

def sentAt (ts : List ClockStep) : List (Nat × Signal) :=
  ts.filterMap fun t => t.output.signal?.map (t.before.now, ·)

@[simp] theorem sentAt_cons : sentAt (t :: ts) =
    (t.output.signal?.map (t.before.now, ·)).toList ++ sentAt ts := by
  cases h : t.output.signal? <;> simp [sentAt, h]

theorem signal?_of_mem_sentAt {time : Nat} {signal : Signal} (h : (time, signal) ∈ sentAt ts) :
    ∃ t ∈ ts, t.output.signal? = some signal := by
  obtain ⟨t, ht, hsent⟩ := List.mem_filterMap.mp h
  obtain ⟨sent, hsignal, heq⟩ := Option.map_eq_some_iff.mp hsent
  obtain ⟨-, rfl⟩ := Prod.mk.inj heq
  exact ⟨t, ht, hsignal⟩

theorem Took.opening_of_terminate (ht : Took s pgid mode m stage r)
    (hr : r.signal? = some .terminate) : stage = .opening := by
  cases ht with
  | asked => rfl
  | _ => simp [Turn.signal?] at hr

theorem not_asked_again {c : Clocked} {sights : List Sight} {time : Nat}
    (hc : c.stage ≠ some .opening) : (time, .terminate) ∉ sentAt (steps (onClock s pgid mode) c sights) := by
  intro hsent
  obtain ⟨t, ht, hsignal⟩ := signal?_of_mem_sentAt hsent
  obtain ⟨pre, post, hsplit⟩ := List.append_of_mem ht
  obtain ⟨hpath, hstep, -⟩ := steps_split hsplit
  obtain ⟨stage, hstage, htook, -⟩ := clockStep_took hstep
  have hlater : t.before.stage ≠ some .opening := by
    refine hpath.preserves (P := fun c => c.stage ≠ some .opening) hc fun u _ hu _ => ?_
    obtain ⟨stage, -, htook, hafter⟩ := clockStep_took hu
    rw [hafter]
    exact fun hn => htook.next_ne_opening hn rfl
  rw [hstage, htook.opening_of_terminate hsignal] at hlater
  exact hlater rfl

-- ---------------------------------------------------------------------------
-- The wait
-- ---------------------------------------------------------------------------

/-- The looks taken in the grace period tell whether the group is empty at the time. -/
def TellsVacancy (vacant : Nat → Prop) (ts : List ClockStep) : Prop :=
  ∀ t ∈ ts, ∀ deadline, t.before.stage = some (.grace deadline) →
    (FindsNobody t.event.group ↔ vacant t.before.now)

structure GraceEnds (vacant : Nat → Prop) (final : Nat) (ts : List ClockStep) : Prop where
  spared : vacant final → sentAt ts = [] ∧
    ∃ last, ts.getLast? = some last ∧ last.output = .done (.terminated false 1)
  killed : ¬ vacant final → ∃ later, sentAt ts = (final, .kill) :: later

theorem GraceEnds.of_wait (h : GraceEnds vacant final ts) (hpause : t.output.signal? = none) :
    GraceEnds vacant final (t :: ts) where
  spared := by
    intro hvacant
    obtain ⟨hnone, last, hlast, hdone⟩ := h.spared hvacant
    exact ⟨by simp [hpause, hnone], last, List.mem_getLast?_cons hlast, hdone⟩
  killed := by
    intro halive
    obtain ⟨later, hsent⟩ := h.killed halive
    exact ⟨later, by simp [hpause, hsent]⟩

/-- The last poll decides, and the polls before it do not. -/
theorem grace_ends (hp : 1 ≤ s.pollMs) (hstays : ∀ d e, d ≤ e → vacant d → vacant e) {sights : List Sight}
    (hcalm : ∀ t ∈ steps (onClock s pgid mode) ⟨some (.grace deadline), now⟩ sights,
      t.event.escalated = false)
    (htells : TellsVacancy vacant (steps (onClock s pgid mode) ⟨some (.grace deadline), now⟩ sights))
    (h : (Stage.grace deadline).turnsLeft s now ≤ sights.length) :
    GraceEnds vacant (now + waitSpan s (deadline - now))
      (steps (onClock s pgid mode) ⟨some (.grace deadline), now⟩ sights) := by
  induction sights generalizing now with
  | nil => exact absurd (turnsLeft_pos s now (.grace deadline)) (Nat.not_lt_of_le h)
  | cons seen sights ih =>
    obtain ⟨r, ht, hsteps⟩ := steps_onClock s pgid mode (.grace deadline) now seen sights
    rw [hsteps] at hcalm htells ⊢
    have hlook : FindsNobody seen.group ↔ vacant now := htells _ List.mem_cons_self deadline rfl
    have hflag : seen.escalated = false := hcalm _ List.mem_cons_self
    have hnobody : (seen.moment now).members pgid = [] ↔ vacant now := liveMembers_eq_nil.trans hlook
    cases ht with
    | left hempty =>
      have hvacant : vacant (now + waitSpan s (deadline - now)) :=
        hstays _ _ (Nat.le_add_right _ _) (hnobody.mp hempty)
      refine ⟨fun _ => ?_, fun halive => absurd hvacant halive⟩
      simp [Turn.next?, steps_onClock_none, Turn.signal?, sentAt]
    | pressed halive hpress =>
      have hpassed : deadline ≤ now := hpress.resolve_right (by simp [Sight.moment, hflag])
      rw [waitSpan_of_passed hpassed, Nat.add_zero]
      refine ⟨fun hvacant => absurd (hnobody.mpr hvacant) halive, fun _ => ?_⟩
      simp [Turn.signal?]
    | waited _ hearly =>
      rw [Sight.moment_now] at hearly
      rw [waitSpan_of_early hp hearly, ← Nat.add_assoc]
      refine GraceEnds.of_wait (ih (fun t ht => hcalm t (List.mem_cons_of_mem _ ht))
        (fun t ht => htells t (List.mem_cons_of_mem _ ht)) ?_) rfl
      simp only [Stage.turnsLeft, polls_of_early hp hearly, List.length_cons] at h ⊢
      omega

-- ---------------------------------------------------------------------------
-- Whole reaps
-- ---------------------------------------------------------------------------

theorem exists_sights (hp : 1 ≤ s.pollMs) (sight : Nat → Sight) :
    ∃ seen sights, (List.range (Rehearsal.turnBound s)).map sight = seen :: sights := by
  refine List.exists_cons_of_ne_nil fun hnil => ?_
  have hbound := turnsLeft_opening_le hp 0
  have hpos := turnsLeft_pos s 0 .opening
  have hzero : Rehearsal.turnBound s = 0 := by simpa using hnil
  omega

theorem course_of_asked (hp : 1 ≤ s.pollMs) {sight : Nat → Sight} {asked : Nat}
    (hasked : (asked, .terminate) ∈ sentAt (course s pgid mode start sight)) :
    asked = start ∧ ∃ t sights, t.before.now = start ∧ t.output.signal? = some .terminate ∧
      course s pgid mode start sight =
        t :: steps (onClock s pgid mode) ⟨some (.grace (start + s.graceMs)), start⟩ sights ∧
      (Stage.grace (start + s.graceMs)).turnsLeft s start ≤ sights.length := by
  obtain ⟨seen, sights, hsights⟩ := exists_sights hp sight
  have hlength : Stage.opening.turnsLeft s start ≤ sights.length + 1 := by
    rw [← List.length_cons (a := seen), ← hsights, List.length_map, List.length_range]
    exact turnsLeft_opening_le hp start
  obtain ⟨r, ht, hsteps⟩ := steps_onClock s pgid mode .opening start seen sights
  rw [course, hsights, hsteps] at hasked ⊢
  have hfirst : r.signal? = some .terminate ∧ asked = start := by
    rw [sentAt_cons] at hasked
    rcases List.mem_append.mp hasked with hnow | hlater
    · obtain ⟨signal, hsignal, heq⟩ := Option.map_eq_some_iff.mp (Option.mem_toList.mp hnow)
      obtain ⟨rfl, rfl⟩ := Prod.mk.inj heq
      exact ⟨hsignal, rfl⟩
    · refine absurd hlater (not_asked_again fun hn => ?_)
      exact ht.next_ne_opening hn rfl
  cases ht with
  | asked =>
    refine ⟨hfirst.2, _, sights, rfl, hfirst.1, rfl, ?_⟩
    simp only [Stage.turnsLeft, Nat.add_sub_cancel_left] at hlength ⊢
    omega
  | _ => simp [Turn.signal?] at hfirst

/-- In a reap that is not cut short, a group that empties by the deadline of the grace period gets the polite
signal only, and a group that is still there at the last poll is killed at that time and no sooner. -/
theorem grace_period_kept (s : Settings.Reaping) (pgid : Int) (start : Nat) (sight : Nat → Sight)
    (hp : 1 ≤ s.pollMs) (hstays : ∀ d e, d ≤ e → vacant d → vacant e)
    (htells : TellsVacancy vacant (course s pgid .graceful start sight))
    (hcalm : ∀ t ∈ course s pgid .graceful start sight, t.event.escalated = false) {asked : Nat}
    (hasked : (asked, .terminate) ∈ sentAt (course s pgid .graceful start sight)) :
    (∀ d ≤ asked + s.graceMs, vacant d →
      sentAt (course s pgid .graceful start sight) = [(asked, .terminate)] ∧
        ∃ last, (course s pgid .graceful start sight).getLast? = some last ∧
          last.output = .done (.terminated false 1)) ∧
    (¬ vacant (asked + waitSpan s s.graceMs) →
      ∃ later, sentAt (course s pgid .graceful start sight) =
        (asked, .terminate) :: (asked + waitSpan s s.graceMs, .kill) :: later) := by
  obtain ⟨rfl, t, sights, hnow, hsignal, hcourse, hlength⟩ := course_of_asked hp hasked
  rw [hcourse] at hcalm htells ⊢
  have hends := grace_ends hp hstays (fun u hu => hcalm u (List.mem_cons_of_mem _ hu))
    (fun u hu => htells u (List.mem_cons_of_mem _ hu)) hlength
  rw [Nat.add_sub_cancel_left] at hends
  simp only [sentAt_cons, hsignal, hnow, Option.map_some, Option.toList_some]
  refine ⟨fun d hd hvacant => ?_, fun halive => ?_⟩
  · have hfinal : vacant (asked + waitSpan s s.graceMs) := by
      refine hstays d _ (Nat.le_trans hd ?_) hvacant
      exact Nat.add_le_add_left (le_waitSpan hp s.graceMs) asked
    obtain ⟨hnone, last, hlast, hdone⟩ := hends.spared hfinal
    exact ⟨by rw [hnone]; rfl, last, List.mem_getLast?_cons hlast, hdone⟩
  · obtain ⟨later, hsent⟩ := hends.killed halive
    exact ⟨later, by rw [hsent]; rfl⟩

def leaving (turn : Nat) : Sight := ⟨.ok (if turn ≤ 3 then [42] else []), false⟩

def leavingCourse : List ClockStep := course ⟨50, 50, 20, 2⟩ 42 .graceful 7 leaving

theorem leavingCourse_eq : leavingCourse = [
    ⟨⟨some .opening, 7⟩, leaving 0, .send 42 .terminate (.grace 57), ⟨some (.grace 57), 7⟩⟩,
    ⟨⟨some (.grace 57), 7⟩, leaving 1, .pause 20 (.grace 57), ⟨some (.grace 57), 27⟩⟩,
    ⟨⟨some (.grace 57), 27⟩, leaving 2, .pause 20 (.grace 57), ⟨some (.grace 57), 47⟩⟩,
    ⟨⟨some (.grace 57), 47⟩, leaving 3, .pause 20 (.grace 57), ⟨some (.grace 57), 67⟩⟩,
    ⟨⟨some (.grace 57), 67⟩, leaving 4, .done (.terminated false 1), ⟨none, 67⟩⟩] := rfl

theorem grace_period_kept_leaving :
    1 ≤ (⟨50, 50, 20, 2⟩ : Settings.Reaping).pollMs ∧ (∀ d e, d ≤ e → 52 ≤ d → 52 ≤ e) ∧
      TellsVacancy (52 ≤ ·) leavingCourse ∧ (∀ t ∈ leavingCourse, t.event.escalated = false) ∧
      (7, .terminate) ∈ sentAt leavingCourse ∧ sentAt leavingCourse = [(7, .terminate)] ∧
      ∃ last, leavingCourse.getLast? = some last ∧ last.output = .done (.terminated false 1) := by
  have hstays : ∀ d e, d ≤ e → 52 ≤ d → 52 ≤ e := fun d e hde hd => Nat.le_trans hd hde
  have htells : TellsVacancy (52 ≤ ·) leavingCourse := by
    simp [TellsVacancy, leavingCourse_eq, leaving, FindsNobody]
  have hcalm : ∀ t ∈ leavingCourse, t.event.escalated = false := by simp [leavingCourse_eq, leaving]
  have hasked : (7, .terminate) ∈ sentAt leavingCourse := by simp [leavingCourse_eq, Turn.signal?]
  obtain ⟨hspared, -⟩ :=
    grace_period_kept ⟨50, 50, 20, 2⟩ 42 7 leaving (by decide) hstays htells hcalm hasked
  exact ⟨by decide, hstays, htells, hcalm, hasked, hspared 52 (by decide) (by decide)⟩

end Vigil.Reap
