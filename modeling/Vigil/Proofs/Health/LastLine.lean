import Vigil.Proofs.Health.CleanSlate
import Vigil.Proofs.Health.Spent
import Vigil.Proofs.Text.Quoted

/-!
# The line that is quoted

An alarm over a loop quotes the last line of output. Prunes and resets leave that line where it is, so it
may be older than anything in the window. But the evidence of a loop is in the window, and the last line is
the newest one there: `Monitor.Stems` says this of every monitor that acts lead to, and also where that line
came from. `Monitor.quotes_newest_line` concludes that nothing else is ever quoted.
-/

namespace Vigil

-- ---------------------------------------------------------------------------
-- Quotations
-- ---------------------------------------------------------------------------

namespace Diagnosis

variable {d : Diagnosis} {said shown line : String}

def Quotes (d : Diagnosis) (line : String) : Prop :=
  ∃ said, d.evidence = said ++ "; last line: " ++ Quoted.encode line

/-- Only one line can be read as the one that is quoted. -/
theorem Quotes.unique (h : d.Quotes line) (h' : d.Quotes shown) : line = shown := by
  obtain ⟨said, hsaid⟩ := h
  obtain ⟨said', hsaid'⟩ := h'
  have hblank (t : String) : t ++ "; last line: " = t ++ "; last line:" ++ " " := by
    rw [String.append_assoc]
    rfl
  rw [hsaid, hblank, hblank] at hsaid'
  exact Quoted.eq_of_trailing hsaid'

theorem not_quotes_of_suffix (h : d.evidence = said ++ "s without repetitive output") : ¬ d.Quotes line := by
  rintro ⟨said', hsaid⟩
  -- a quotation ends with a quote
  have hquote : (said' ++ "; last line: " ++ Quoted.encode line).toList.getLast? = some '"' := by
    rw [String.toList_append, Quoted.toList_encode, ← List.cons_append, ← List.append_assoc,
      List.getLast?_concat]
  have hplain : (said ++ "s without repetitive output").toList.getLast? = some 't' := by
    rw [String.toList_append, List.getLast?_append]
    rfl
  rw [← hsaid, h, hplain] at hquote
  exact absurd (Option.some.inj hquote) (by decide)

end Diagnosis

namespace Assessor

variable {s : Settings} {a b : Assessor} {obs : Observation} {d : Diagnosis}

theorem enter_evidence (h : enter a target evidence = (b, some d)) : d.evidence = evidence := by
  unfold enter at h
  split at h <;> cases h
  rfl

inductive Said (obs : Observation) (target : Health) (evidence : String) : Prop
  | looping (said) : obs.repetition.isLoopEvidence → evidence = withLine said obs.lastLine →
      Said obs target evidence
  | unrepeated (said) : target = .runaway → evidence = said ++ "s without repetitive output" →
      Said obs target evidence

theorem runawayAlarm_said (h : runawayAlarm s a obs = some evidence) : Said obs .runaway evidence := by
  unfold runawayAlarm at h
  split at h
  · split at h
    · rename_i hloop
      cases h
      exact .looping _ hloop rfl
    · simp only at h
      split at h
      · cases h
        exact .unrepeated _ rfl rfl
      · cases h
  · cases h

theorem stuckAlarm_said (h : stuckAlarm s (a.noteTimers obs) obs = .ok (some evidence)) :
    Said obs .stuck evidence := by
  have hloop := isLoopEvidence_of_stuckAlarm h
  unfold stuckAlarm at h
  split at h
  · cases h
  · simp only at h
    split at h
    · cases h
    · split at h
      · cases h
        exact .looping _ hloop rfl
      · cases h

theorem alarm_said (h : alarm s (a.noteTimers obs) obs = .ok (some (target, evidence)))
    (ht : target = .stuck ∨ target = .runaway) : Said obs target evidence := by
  unfold alarm at h
  split at h
  · cases h
    simp at ht
  · split at h
    · rename_i hrun
      cases h
      exact runawayAlarm_said hrun
    · obtain ⟨found, hstuck, h⟩ := map_ok.mp h
      cases found with
      | none => cases h
      | some text =>
        cases h
        exact stuckAlarm_said hstuck

theorem observe_said (h : observe s a obs = .ok (b, some d))
    (ht : d.target = .stuck ∨ d.target = .runaway) : Said obs d.target d.evidence := by
  cases observed h with
  | ended _ hr => cases (Prod.mk.inj hr).2
  | emptied _ _ he | orphaned _ _ he =>
    rw [enter_target he] at ht
    simp at ht
  | running _ _ hr =>
    obtain ⟨found, halarm, h⟩ := map_ok.mp hr
    cases found with
    | some found =>
      obtain ⟨target, evidence⟩ := found
      simp only at h
      split at h
      · cases h
      · rw [enter_target h] at ht ⊢
        rw [enter_evidence h]
        exact alarm_said halarm ht
    | none =>
      simp only at h
      split at h
      · cases h
      · split at h
        · rw [enter_target h] at ht
          simp at ht
        · rw [enter_target h] at ht
          simp at ht
        · cases h

end Assessor

-- ---------------------------------------------------------------------------
-- Where the newest line comes from
-- ---------------------------------------------------------------------------

namespace Monitor

/-- A line of that time still counts after the step: it is not cleared away, no line comes after it, and it
is not too old for a prune. -/
structure Spares (s : Settings) (time : Nat) (t : ActStep) : Prop where
  reset : ¬ t.event.IsReset
  line : ∀ time' text, t.event = .call (.line time' text) →
    t.before.tracked.logWindow.accepts time' = false
  age : ∀ now ∈ t.event.prunes?, now - time ≤ s.logs.window

/-- Of the lines that were accepted since the last reset this one was the last, and it is not too old. -/
def LastAccepted (s : Settings) (ts : List ActStep) (time : Nat) (text : String) : Prop :=
  ∃ earlier t since, ts = earlier ++ t :: since ∧ t.event = .call (.line time text) ∧
    t.before.tracked.logWindow.accepts time ∧ ∀ u ∈ since, Spares s time u

structure Stems (s : Settings) (ts : List ActStep) (m : Monitor) : Prop where
  ordered : m.tracked.logWindow.Ordered
  maxAge : m.tracked.logWindow.maxAge = some s.logs.window
  newest : ∀ e ∈ m.tracked.logWindow.newest?, ∃ text, e.value = Fingerprint.ofLine text ∧
    m.tracked.lastLine = some (Redaction.redact e.value.exact) ∧ LastAccepted s ts e.time text

variable {s : Settings} {m : Monitor} {t : ActStep} {ts : List ActStep} {x : Act} {d : Diagnosis}
  {tracked : Tracked} {time : Nat} {text : String}

theorem LastAccepted.snoc (h : LastAccepted s ts time text) (ht : Spares s time t) :
    LastAccepted s (ts ++ [t]) time text := by
  obtain ⟨earlier, u, since, rfl, hu, haccepts, hsince⟩ := h
  refine ⟨earlier, u, since ++ [t], by simp, hu, haccepts, ?_⟩
  intro v hv
  rcases List.mem_append.mp hv with hv | hv
  · exact hsince v hv
  · rw [List.mem_singleton.mp hv]
    exact ht

theorem start_stems (s : Settings) (id : ProcessId) (begun : Nat) : Stems s [] (start s id begun) where
  ordered := Ring.ordered_empty _ _
  maxAge := rfl
  newest := by
    rintro e ⟨⟩

inductive Newest (tracked : Tracked) (x : Act) (e : Stamped (Fingerprint String)) : Prop
  | accepted {text : String} : x = .call (.line e.time text) → tracked.logWindow.accepts e.time →
      e.value = .ofLine text → (evidence tracked x).lastLine = some (Redaction.redact e.value.exact) →
      Newest tracked x e
  | kept : e ∈ tracked.logWindow.newest? → (evidence tracked x).lastLine = tracked.lastLine → ¬ x.IsReset →
      (∀ time text, x = .call (.line time text) → tracked.logWindow.accepts time = false) →
      (∀ now ∈ x.prunes?, ∀ age ∈ tracked.logWindow.maxAge, now - e.time ≤ age) → Newest tracked x e

theorem newest_evidence (hord : tracked.logWindow.Ordered) {e : Stamped (Fingerprint String)}
    (h : e ∈ (evidence tracked x).logWindow.newest?) : Newest tracked x e := by
  cases x with
  | call c =>
    cases c with
    | line time text =>
      by_cases ha : tracked.logWindow.accepts time
      · have hrecord : evidence tracked (.call (.line time text)) =
            { tracked with
              logWindow := tracked.logWindow.push time (.ofLine text)
              lastLine := some (OutputLine.of text).redacted } := if_pos ha
        rw [hrecord, Ring.newest?_push ha hord] at h
        cases h
        refine .accepted rfl ha rfl ?_
        rw [hrecord]
        rfl
      · have hrefuse : evidence tracked (.call (.line time text)) = tracked := if_neg ha
        have hrefused : tracked.logWindow.accepts time = false := by simpa using ha
        rw [hrefuse] at h
        refine .kept h (by rw [hrefuse]) not_false ?_ (by rintro _ ⟨⟩)
        rintro _ _ ⟨⟩
        exact hrefused
    | reading time cpuPercent residentBytes =>
      have hlines : (tracked.recordSample time cpuPercent residentBytes).logWindow = tracked.logWindow ∧
          (tracked.recordSample time cpuPercent residentBytes).lastLine = tracked.lastLine := by
        unfold Tracked.recordSample
        split <;> exact ⟨rfl, rfl⟩
      rw [evidence, hlines.1] at h
      exact .kept h hlines.2 not_false (by rintro _ _ ⟨⟩) (by rintro _ ⟨⟩)
    | tick now liveness =>
      obtain ⟨hnewest, hage⟩ := Ring.newest?_prune hord h
      refine .kept hnewest rfl not_false (by rintro _ _ ⟨⟩) ?_
      rintro _ ⟨⟩
      exact hage
    | reset => cases h
    | abandon => exact .kept h rfl not_false (by rintro _ _ ⟨⟩) (by rintro _ ⟨⟩)
  | prune now =>
    obtain ⟨hnewest, hage⟩ := Ring.newest?_prune hord h
    refine .kept hnewest rfl not_false (by rintro _ _ ⟨⟩) ?_
    rintro _ ⟨⟩
    exact hage
  | judge => exact .kept h rfl not_false (by rintro _ _ ⟨⟩) (by rintro _ ⟨⟩)

theorem Stems.snoc (h : Stems s ts t.before) (ht : t.Of (act s)) : Stems s (ts ++ [t]) t.after := by
  obtain ⟨-, state, lastTransition, hafter⟩ := act_ok ht
  have hwindow : t.after.tracked.logWindow = (evidence t.before.tracked t.event).logWindow := by rw [hafter]
  have hline : t.after.tracked.lastLine = (evidence t.before.tracked t.event).lastLine := by rw [hafter]
  refine ⟨?_, ?_, ?_⟩
  · rw [hwindow]
    exact ordered_evidence h.ordered t.event
  · rw [hwindow, ← h.maxAge]
    exact congrArg (fun window => window.clear.maxAge) (clear_logWindow_evidence t.before.tracked t.event)
  · intro e he
    rw [hwindow] at he
    rw [hline]
    cases newest_evidence h.ordered he with
    | accepted hevent ha hvalue hlast =>
      exact ⟨_, hvalue, hlast, ts, t, [], rfl, hevent, ha, by simp⟩
    | kept hnewest hlast hreset hrefused hage =>
      obtain ⟨text, hvalue, hbefore, haccepted⟩ := h.newest e hnewest
      have hspares : Spares s e.time t := ⟨hreset, hrefused, fun now hnow => hage now hnow _ h.maxAge⟩
      exact ⟨text, hvalue, hlast.trans hbefore, haccepted.snoc hspares⟩

theorem path_stems {id : ProcessId} (hp : Path (act s) (start s id begun) ts m) : Stems s ts m := by
  induction hp with
  | nil => exact start_stems s id begun
  | snoc _ ht ih => exact ih.snoc ht

-- ---------------------------------------------------------------------------
-- What is quoted
-- ---------------------------------------------------------------------------

theorem assess_said (h : assess s a tracked x = .ok (b, some d))
    (ht : d.target = .stuck ∨ d.target = .runaway) :
    ∃ now liveness, Assessor.Said (observation s tracked now liveness) d.target d.evidence := by
  cases x with
  | call c =>
    cases c with
    | tick now liveness => exact ⟨now, liveness, Assessor.observe_said h ht⟩
    | reset =>
      rw [Assessor.reset_target (Except.ok.inj h)] at ht
      simp at ht
    | abandon =>
      rw [Assessor.abandon_target (Except.ok.inj h)] at ht
      simp at ht
    | line | reading => cases h
  | prune => cases h
  | judge now liveness => exact ⟨now, liveness, Assessor.observe_said h ht⟩

/-- An alarm over a load or a loop quotes the newest line of the window or none, and over a loop alone it
does quote. The line is the last one that was accepted since the last reset, and it is not too old: what was
refused, dropped or cleared away is not quoted. -/
theorem quotes_newest_line (s : Settings) (id : ProcessId) (begun : Nat) (acts : List Act)
    {pre post : List ActStep} {t : ActStep} (hrun : steps (act s) (start s id begun) acts = pre ++ t :: post)
    {d : Diagnosis} (hd : t.output = some d) (ht : d.target = .stuck ∨ d.target = .runaway) :
    (d.target = .stuck → ∃ shown, d.Quotes shown) ∧
      ∀ shown, d.Quotes shown → ∃ e ∈ t.after.tracked.logWindow.newest?, ∃ text,
        e.value = Fingerprint.ofLine text ∧ shown = Redaction.redact e.value.exact ∧
          LastAccepted s (pre ++ [t]) e.time text := by
  obtain ⟨hpath, hof, -⟩ := steps_split hrun
  have hstems := (path_stems hpath).snoc hof
  rw [Step.Of, hd] at hof
  obtain ⟨hassess, state, lastTransition, hafter⟩ := act_ok hof
  obtain ⟨now, liveness, hsaid⟩ := assess_said hassess ht
  cases hsaid with
  | looping said hloop hevidence =>
    have hwindow : t.after.tracked.logWindow = (evidence t.before.tracked t.event).logWindow := by rw [hafter]
    have hline : t.after.tracked.lastLine = (evidence t.before.tracked t.event).lastLine := by rw [hafter]
    have hne : t.after.tracked.logWindow.entries ≠ [] := by
      rw [hwindow]
      exact fun hnone => Repetition.not_isLoopEvidence_of_empty hnone hloop
    obtain ⟨e, he⟩ := Option.isSome_iff_exists.mp (List.getLast?_isSome.mpr hne)
    obtain ⟨text, hvalue, hlast, haccepted⟩ := hstems.newest e he
    have hquotes : d.Quotes (Redaction.redact e.value.exact) := by
      rw [hline] at hlast
      rw [observation, hlast] at hevidence
      exact ⟨said, hevidence⟩
    refine ⟨fun _ => ⟨_, hquotes⟩, fun shown hshown => ?_⟩
    exact ⟨e, he, text, hvalue, hshown.unique hquotes, haccepted⟩
  | unrepeated said htarget hevidence =>
    refine ⟨fun hstuck => ?_, fun shown hshown => ?_⟩
    · rw [hstuck] at htarget
      cases htarget
    · exact absurd hshown (Diagnosis.not_quotes_of_suffix hevidence)

def retries : List Act :=
  [.call (.line 200 "attempt 1: token=f00d"), .call (.reset 300), .call (.line 500 "attempt 2: token=f00d"),
    .call (.line 900 "attempt 3: token=f00d"), .call (.line 700 "late"), .call (.tick 1000 .running)]

theorem retries_quoted :
    ∃ pre t d, steps (act brisk) (start brisk ⟨1, 1⟩ 0) (retries ++ [.judge 3000 .running]) = pre ++ [t] ∧
      t.output = some d ∧ d.target = .stuck ∧ d.Quotes "attempt 3: token=<REDACTED>" ∧
        ∃ e ∈ t.after.tracked.logWindow.newest?, ∃ text, e.value = Fingerprint.ofLine text ∧
          "attempt 3: token=<REDACTED>" = Redaction.redact e.value.exact ∧
            LastAccepted brisk (pre ++ [t]) e.time text := by
  have hcomputed : ((run (act brisk) (start brisk ⟨1, 1⟩ 0) retries).toOption.bind fun m =>
      (act brisk m (.judge 3000 .running)).toOption.bind fun r =>
        r.2.map fun d => (d.target, d.evidence)) =
      some (.stuck, "fuzzy loop: 100% of 2 lines share one shape for 2s" ++ "; last line: " ++
        Quoted.encode "attempt 3: token=<REDACTED>") := by
    decide +kernel
  obtain ⟨m, hrun, hjudge⟩ := Option.bind_eq_some_iff.mp hcomputed
  obtain ⟨⟨m', out⟩, hact, hout⟩ := Option.bind_eq_some_iff.mp hjudge
  obtain ⟨d, rfl, hd⟩ := Option.map_eq_some_iff.mp hout
  obtain ⟨htarget, hevidence⟩ := Prod.mk.inj hd
  have hsteps : steps (act brisk) (start brisk ⟨1, 1⟩ 0) (retries ++ [.judge 3000 .running]) =
      steps (act brisk) (start brisk ⟨1, 1⟩ 0) retries ++
        [⟨m, .judge 3000 .running, some d, m'⟩] := by
    rw [steps_append (ok_of_toOption hrun), steps_cons (ok_of_toOption hact)]
    rfl
  have hquotes : d.Quotes "attempt 3: token=<REDACTED>" := ⟨_, hevidence⟩
  have hnewest := (quotes_newest_line brisk ⟨1, 1⟩ 0 _ hsteps rfl (.inl htarget)).2 _ hquotes
  exact ⟨_, _, d, hsteps, rfl, htarget, hquotes, hnewest⟩

end Monitor

end Vigil
