import Vigil.Proofs.Health.Judgement
import Vigil.Proofs.Steps

/-!
# Alarms only escalate

An assessor is called any number of times, in any order and with any observations. `alarms_ratchet`: an
alarm that stands gives way to a more severe state or to a reset, a terminal state to nothing, and
without a reset there are no more alarms than there are degrees of severity.
-/

namespace Vigil.Assessor

inductive Call where
  | observe (obs : Observation)
  | reset
  | abandon (reason : String)
  deriving DecidableEq

def call (s : Settings) (a : Assessor) : Call → Except SpanOverflow (Assessor × Option Diagnosis)
  | .observe obs => a.observe s obs
  | .reset => .ok a.reset
  | .abandon reason => .ok (a.abandon reason)

abbrev CallStep := Step Assessor Call (Option Diagnosis)

def raisesAlarm (t : CallStep) : Bool :=
  t.output.any fun d => d.target.isSticky || d.target.isTerminal

variable {s : Settings} {a b : Assessor} {t : CallStep} {ts : List CallStep}

-- ---------------------------------------------------------------------------
-- One call
-- ---------------------------------------------------------------------------

theorem call_judged (h : call s a c = .ok r) : Judged a r := by
  cases c with
  | observe obs => exact observe_judged h
  | reset => cases h; exact reset_judged
  | abandon reason => cases h; exact abandon_judged

theorem call_terminal (ht : a.state.isTerminal) : call s a c = .ok (a, none) := by
  cases c with
  | observe obs => exact observe_terminal ht
  | reset => simp [call, reset, ht]
  | abandon reason => simp [call, abandon, ht]

theorem call_escalates (hc : c ≠ .reset) (hs : a.state.isSticky)
    (h : call s a c = .ok (b, some d)) : a.state.severity < d.target.severity := by
  have hbound := (Health.severity_of_sticky hs).2
  have ht := Health.not_terminal_of_sticky hs
  cases c with
  | reset => exact absurd rfl hc
  | abandon reason =>
    rw [abandon_target (Except.ok.inj h)]
    exact hbound
  | observe obs =>
    cases observed h with
    | ended ht' => exact absurd ht' ht
    | emptied _ _ he =>
      rw [enter_target he]
      exact hbound
    | orphaned _ _ he =>
      have htgt := enter_target he
      -- the diagnosis changes the state, so the alarm that stands is none of an orphaned group
      have hne : a.state ≠ .zombie := by
        intro hz
        simp [enter, hz] at he
      rw [htgt]
      revert hs hne
      cases a.state <;> decide
    | running _ _ hr => exact (assessRunning_target hr).2.2 hs

theorem severity_le_of_call (hc : c ≠ .reset) (h : call s a c = .ok (b, out)) :
    a.state.severity ≤ b.state.severity := by
  cases call_judged h with
  | stays _ hs => exact Nat.le_of_eq (by rw [hs])
  | turns _ ht _ _ htgt _ =>
    by_cases hs : a.state.isSticky
    · exact Nat.le_of_lt (htgt ▸ call_escalates hc hs h)
    · rw [(Health.severity_eq_zero_iff a.state).mpr ⟨hs, ht⟩]
      exact Nat.zero_le _

/-- Without a reset, severity rises with every diagnosis to an alarm or to a terminal state. -/
theorem severity_lt_of_alarm (hc : c ≠ .reset) (h : call s a c = .ok (b, some d))
    (hd : d.target.isSticky ∨ d.target.isTerminal) : a.state.severity < b.state.severity := by
  cases call_judged h with
  | turns _ ht _ _ htgt _ =>
    rw [← htgt]
    by_cases hs : a.state.isSticky
    · exact call_escalates hc hs h
    · rw [(Health.severity_eq_zero_iff a.state).mpr ⟨hs, ht⟩]
      rcases hd with hd | hd
      · exact (Health.severity_of_sticky hd).1
      · rw [Health.severity_of_terminal hd]
        decide

theorem step_climbs (h : t.Of (call s)) (hc : t.event ≠ .reset) :
    t.before.state.severity + (if raisesAlarm t then 1 else 0) ≤ t.after.state.severity := by
  split
  · rename_i ha
    obtain ⟨d, hd, ha⟩ := (Option.any_eq_true _ _).mp ha
    rw [Step.Of, hd] at h
    exact severity_lt_of_alarm hc h (by simpa using ha)
  · exact severity_le_of_call hc h

-- ---------------------------------------------------------------------------
-- Whole runs
-- ---------------------------------------------------------------------------

theorem path_climbs (hp : Path (call s) a ts b) (hc : ∀ t ∈ ts, t.event ≠ .reset) :
    a.state.severity + ts.countP raisesAlarm ≤ b.state.severity := by
  induction hp with
  | nil => simp
  | @snoc ts t _ ht ih =>
    have hts := ih fun u hu => hc u (List.mem_append_left _ hu)
    have hstep := step_climbs ht (hc t (by simp))
    rw [List.countP_append, List.countP_singleton]
    omega

/-- Alarms ratchet in every run. A diagnosis out of an alarm leads to a more severe state, or a reset
returned it and it leads to the healthy state. Calls in a terminal state return nothing and change
nothing. In a stretch without a reset at most five diagnoses lead to an alarm or a terminal state. And no
observation leads from an alarm to a calm state. -/
theorem alarms_ratchet (s : Settings) (id : ProcessId) (calls : List Call) :
    (∀ t ∈ steps (call s) { process := id } calls, ∀ d ∈ t.output, d.source.isSticky →
      d.source.severity < d.target.severity ∨ t.event = .reset ∧ d.target = .healthy) ∧
    (∀ a c, a.state.isTerminal → call s a c = .ok (a, none)) ∧
    (∀ before stretch after, steps (call s) { process := id } calls = before ++ stretch ++ after →
      (∀ t ∈ stretch, t.event ≠ .reset) → stretch.countP raisesAlarm ≤ 5) ∧
    (∀ t ∈ steps (call s) { process := id } calls, ∀ obs, t.event = .observe obs →
      t.before.state.isSticky → t.after.state ≠ .healthy ∧ t.after.state ≠ .bursty) := by
  refine ⟨?_, fun a c ht => call_terminal ht, ?_, ?_⟩
  · intro t ht d hd hs
    have ht := of_mem_steps ht
    rw [Step.Of, Option.mem_def.mp hd] at ht
    cases call_judged ht with
    | turns _ _ _ hsrc _ _ =>
      rw [hsrc] at hs ⊢
      by_cases hc : t.event = .reset
      · rw [hc] at ht
        exact .inr ⟨hc, reset_target (Except.ok.inj ht)⟩
      · exact .inl (call_escalates hc hs ht)
  · intro before stretch after h hc
    rw [List.append_assoc] at h
    obtain ⟨a, _, -, h⟩ := steps_eq_append h
    obtain ⟨b, _, hp, -⟩ := steps_eq_append h
    have hclimb := path_climbs hp hc
    have htop := b.state.severity_le
    omega
  · intro t ht obs he hs
    have ht := of_mem_steps ht
    have hpos := (Health.severity_of_sticky hs).1
    have hle := severity_le_of_call (by simp [he]) ht
    constructor
    · intro h
      rw [h] at hle
      exact absurd (Nat.lt_of_lt_of_le hpos hle) (by decide)
    · intro h
      rw [h] at hle
      exact absurd (Nat.lt_of_lt_of_le hpos hle) (by decide)

example :
    let looping : Repetition := { Repetition.unjudged 50 with verdict := .exactLoop }
    let seen (time : Nat) (resources : Resources) (liveness : Liveness) : Call :=
      .observe { time, repetition := looping, resources, liveness, lastLine := none }
    (steps (call {}) { process := ⟨1, 1⟩ }
      [seen 0 {} .running, seen 10000 {} .running,
        seen 11000 { cpu := { verdict := .sustained } } .running,
        seen 12000 { leaking := true } .running, seen 13000 {} (.parentGone 1),
        seen 14000 {} .groupEmpty]).countP raisesAlarm = 5 := by
  decide

end Vigil.Assessor
