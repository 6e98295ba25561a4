import Vigil.Proofs.Health.Spent
import Vigil.Proofs.Reap.Contract
import Vigil.Proofs.Watch.Observed

/-!
# After a reap

A reap that returns has found the group empty, but the watch learns of the end of the process only when
the news of it is served. Until then it takes the workload for a running one. `Watch.subsides_after_reap`
says what it can still diagnose: without a reset nothing but the end, unless a reading that waited
meanwhile is served before the news. `Watch.leaking_after_reap` shows that such a reading does raise a
second alarm.
-/

namespace Vigil

def Health.IsRaised (h : Health) : Prop := h = .stuck ∨ h = .runaway ∨ h = .leaking

def WatchEvent.probe? : WatchEvent → Option GroupProbe
  | .tick _ group | .turn _ group _ => some group
  | _ => none

def WatchEvent.namesNobody (e : WatchEvent) : Bool :=
  match e.probe? with
  | some (.ok (_ :: _)) => false
  | _ => true

def WatchEvent.isReset : WatchEvent → Bool
  | .reset _ => true
  | _ => false

def WatchEvent.isReading : WatchEvent → Bool
  | .reading _ => true
  | _ => false

theorem Assessor.enter_of_ne {a : Assessor} (h : a.state ≠ target)
    (he : a.enter target evidence = (b, out)) : ∃ d ∈ out, d.target = target := by
  unfold enter at he
  rw [if_neg (Ne.symm h)] at he
  cases he
  exact ⟨_, rfl, rfl⟩

namespace Monitor

variable {s : Settings} {m m' : Monitor} {d : Diagnosis} {liveness : Liveness}

theorem tick_target_of_gone (h : m.tick s now liveness = .ok (m', some d)) (hl : liveness ≠ .running) :
    d.target = .gone ∧ liveness = .groupEmpty ∨ d.target = .zombie ∧ ∃ n, liveness = .parentGone n := by
  cases Assessor.observed (tick_observes h) with
  | ended _ hr => cases (Prod.mk.inj hr).2
  | emptied _ hl he => exact .inl ⟨Assessor.enter_target he, hl⟩
  | orphaned _ hl he => exact .inr ⟨Assessor.enter_target he, _, hl⟩
  | running _ hrun => exact absurd hrun hl

theorem tick_groupEmpty (ht : ¬ m.state.isTerminal) (h : m.tick s now .groupEmpty = .ok (m', out)) :
    ∃ d ∈ out, d.target = .gone := by
  have hne : m.assessor.state ≠ .gone := by
    intro hg
    exact ht (by rw [state, hg]; rfl)
  cases Assessor.observed (tick_observes h) with
  | ended hterm => exact absurd hterm ht
  | emptied _ _ he => exact Assessor.enter_of_ne (a := m.assessor.noteTimers _) hne he
  | orphaned _ hl | running _ hl => cases hl

end Monitor

namespace Watch

variable {s : Settings} {w w' : Watch} {e : WatchEvent} {fx : List WatchEffect}

-- ---------------------------------------------------------------------------
-- One step
-- ---------------------------------------------------------------------------

theorem liveness_running_iff : w.liveness? group = some .running ↔ w.parentGone = false := by
  unfold liveness?
  cases w.parentGone with
  | false => simp
  | true =>
    cases group with
    | ok members => cases members <;> simp
    | error err => cases err <;> simp

theorem liveness_groupEmpty (hg : w.parentGone) (hn : Reap.FindsNobody group) :
    w.liveness? group = some .groupEmpty := by
  rcases hn with rfl | rfl <;> simp [liveness?, hg]

/-- An alarm is raised by evidence only while the process is held to be running. -/
theorem move_raises (hm : Move s w e w' fx) (hd : .diagnosed time d ∈ fx) (hr : d.target.IsRaised) :
    w.parentGone = false := by
  cases hm with
  | @ticked now group liveness r hp hlive ht =>
    obtain ⟨-, hd⟩ := mem_publish.mp hd
    obtain ⟨m, out⟩ := r
    obtain rfl : out = some d := hd
    by_cases hl : liveness = .running
    · exact liveness_running_iff.mp (hl ▸ hlive)
    · rcases Monitor.tick_target_of_gone ht hl with ⟨htgt, -⟩ | ⟨htgt, -⟩ <;>
        simp [htgt, Health.IsRaised] at hr
  | reset =>
    obtain ⟨-, hd⟩ := mem_publish.mp hd
    simp [Monitor.reset_target hd, Health.IsRaised] at hr
  | unreaped =>
    obtain ⟨-, hd⟩ := mem_publish.mp hd
    simp [Monitor.abandon_target hd, Health.IsRaised] at hr
  | _ => simp at hd

/-- Without a reset a step makes no state milder, and only a reading changes what the readings come to. -/
theorem move_keeps (hm : Move s w e w' fx) (hreset : ¬ (w.listens e ∧ e.isReset)) :
    w.state.severity ≤ w'.state.severity ∧
      (¬ (w.listens e ∧ e.isReading) → w'.monitor.resources s = w.monitor.resources s) := by
  cases hm with
  | line => exact ⟨Nat.le_refl _, fun _ => Monitor.resources_recordLine _ _ _⟩
  | reading hp => exact ⟨Nat.le_refl _, fun hread => absurd ⟨by simp [listens, hp], rfl⟩ hread⟩
  | reset hp hopen => exact absurd ⟨by simp [listens, hp, hopen], rfl⟩ hreset
  | @ticked now group liveness r _ _ ht =>
    obtain ⟨hres, hle⟩ := Monitor.tick_keeps ht
    show w.state.severity ≤ (respond s (w.publish now r).1 r.2).monitor.state.severity ∧ _
    rw [respond_monitor, publish_eq]
    exact ⟨hle, fun _ => hres⟩
  | @unreaped _ _ now _ _ failure =>
    obtain ⟨hres, hle⟩ := Monitor.abandon_keeps (s := s) w.monitor failure.message now
    refine ⟨?_, fun _ => ?_⟩
    · rw [settle_state, publish_eq]
      exact hle
    · rw [settle_monitor, publish_eq]
      exact hres
  | found => exact ⟨Nat.le_of_eq (by rw [settle_state]), fun _ => by rw [settle_monitor]⟩
  | reaped => exact ⟨Nat.le_of_eq (by rw [settle_state]; rfl), fun _ => by rw [settle_monitor]⟩
  | _ => exact ⟨Nat.le_refl _, fun _ => rfl⟩

theorem unavailable_of_failed {failure : ReapFailure} (hn : WatchEvent.namesNobody (.turn now group escalated))
    (ht : Reap.turn s.reaping pgid mode stage now group escalated = .failed failure) :
    ∃ why, group = .error (.unavailable why) := by
  have htook := Reap.took s.reaping pgid mode stage ⟨now, group, escalated⟩
  rw [ht] at htook
  cases htook with
  | survived hmembers =>
    cases group with
    | ok members =>
      cases members with
      | nil => exact absurd rfl hmembers
      | cons m ms => cases hn
    | error err =>
      cases err with
      | gone => exact absurd rfl hmembers
      | unavailable why => exact ⟨why, rfl⟩

/-- What can be diagnosed once an alarm stands and nobody is left in the group: the end, that a reap could
not look, or a more severe alarm from evidence that is not spent. -/
theorem move_says (hm : Move s w e w' fx) (hd : .diagnosed time d ∈ fx) (hs : 1 ≤ w.state.severity)
    (hreset : ¬ (w.listens e ∧ e.isReset)) (hn : e.namesNobody) :
    d.target = .gone ∨ d.target = .unreapable ∧ (∃ why, e.probe? = some (.error (.unavailable why))) ∨
      d.target.IsRaised ∧ w.parentGone = false ∧ ¬ w.monitor.Spent s := by
  cases hm with
  | @ticked now group liveness r hp hlive ht =>
    obtain ⟨-, hd⟩ := mem_publish.mp hd
    obtain ⟨m, out⟩ := r
    obtain rfl : out = some d := hd
    by_cases hl : liveness = .running
    · subst hl
      have htgt := Monitor.tick_running_target ht
      have hclimb : 1 ≤ d.target.severity := by
        rw [(Monitor.tick_judged ht).target_eq rfl]
        exact Nat.le_trans hs (Monitor.tick_keeps ht).2
      refine .inr (.inr ⟨?_, liveness_running_iff.mp hlive, fun hspent => ?_⟩)
      · revert htgt hclimb
        unfold Health.IsRaised
        cases d.target <;> decide
      · exact absurd (Monitor.Spent.silent hspent ht) (by simp)
    · rcases Monitor.tick_target_of_gone ht hl with ⟨htgt, -⟩ | ⟨-, n, hn'⟩
      · exact .inl htgt
      · obtain ⟨-, m, ms, rfl⟩ := liveness_parentGone (hn' ▸ hlive)
        cases hn
  | reset hp hopen => exact absurd ⟨by simp [listens, hp, hopen], rfl⟩ hreset
  | unreaped hp ht =>
    obtain ⟨-, hd⟩ := mem_publish.mp hd
    obtain ⟨why, rfl⟩ := unavailable_of_failed hn ht
    exact .inr (.inl ⟨Monitor.abandon_target hd, why, rfl⟩)
  | _ => simp at hd

theorem move_ends (hm : Move s w (.tick now group) w' fx) (hc : w.Coherent) (hp : w.phase = .serving)
    (hg : w.parentGone) (hn : Reap.FindsNobody group) : ∃ d, .diagnosed now d ∈ fx ∧ d.target = .gone := by
  have hempty := liveness_groupEmpty hg hn
  have hterm : ¬ w.monitor.state.isTerminal := hc.not_terminal (by rw [hp]; rfl)
  cases hm with
  | unheard hl => simp [listens, hp] at hl
  | blind _ hlive => cases hempty.symm.trans hlive
  | ticked _ hlive ht =>
    obtain rfl := Option.some.inj (hempty.symm.trans hlive)
    obtain ⟨d, hd, htgt⟩ := Monitor.tick_groupEmpty hterm ht
    exact ⟨d, mem_publish.mpr ⟨rfl, hd⟩, htgt⟩

/-- A diagnosis that calls for a reap leaves the evidence spent. -/
theorem move_calls_spent (hm : Move s w e w' fx) (hd : .diagnosed time d ∈ fx)
    (hcall : callsForReap s.action.mode d.target) : w'.monitor.Spent s := by
  have hsticky : d.target.isSticky := by
    rcases (callsForReap_iff _ _).mp hcall with h | ⟨-, h | h | h⟩ <;> rw [h] <;> rfl
  cases hm with
  | @ticked now group liveness r _ _ htick =>
    obtain ⟨-, hd⟩ := mem_publish.mp hd
    obtain ⟨m, out⟩ := r
    obtain rfl : out = some d := hd
    rw [respond_monitor, publish_eq]
    exact Monitor.tick_spent htick hsticky
  | reset =>
    obtain ⟨-, hd⟩ := mem_publish.mp hd
    rw [Monitor.reset_target hd] at hcall
    cases hcall
  | unreaped =>
    obtain ⟨-, hd⟩ := mem_publish.mp hd
    rw [Monitor.abandon_target hd] at hcall
    cases hcall
  | _ => simp at hd

theorem move_reap_silent (hm : Move s w e w' fx) (hp : w.phase.isReaping) (hp' : w'.phase.isReaping) :
    .diagnosed time d ∉ fx := by
  intro hd
  cases hm with
  | unreaped =>
    rw [settle_not_reaping] at hp'
    cases hp'
  | ticked hq | reset hq =>
    rw [hq] at hp
    cases hp
  | _ => simp at hd

-- ---------------------------------------------------------------------------
-- Whole runs
-- ---------------------------------------------------------------------------

variable {id : ProcessId} {now : Nat} {t u call done : WatchStep} {pre reap rest post ts : List WatchStep}

def Resets (t : WatchStep) : Prop := Served t ∧ t.event.isReset

def ServesReading (t : WatchStep) : Prop := Served t ∧ t.event.isReading

def emptiesGroup (s : Settings) (t : WatchStep) : Bool :=
  match t.before.phase, t.event with
  | .reaping mode stage, .turn now group escalated =>
    match Reap.turn s.reaping t.before.id.pgid mode stage now group escalated with
    | .done _ => true
    | _ => false
  | _, _ => false

theorem turn_of_emptiesGroup (h : emptiesGroup s t) :
    ∃ mode stage now group escalated outcome, t.before.phase = .reaping mode stage ∧
      t.event = .turn now group escalated ∧
      Reap.turn s.reaping t.before.id.pgid mode stage now group escalated = .done outcome := by
  unfold emptiesGroup at h
  split at h
  · rename_i hp he
    split at h
    · rename_i hturn
      exact ⟨_, _, _, _, _, _, hp, he, hturn⟩
    · cases h
  · cases h

theorem inReap_of_emptiesGroup (h : emptiesGroup s t) : InReap t := by
  obtain ⟨mode, stage, _, _, _, _, hp, -⟩ := turn_of_emptiesGroup h
  unfold InReap
  rw [hp]
  rfl

theorem inReap_quiet (h : InReap t) : ¬ Resets t ∧ ¬ ServesReading t := by
  unfold InReap at h
  have hp : t.before.phase ≠ .serving := fun hp => by simp [hp, WatchPhase.isReaping] at h
  unfold Resets ServesReading Served
  constructor
  · rintro ⟨hserved, he⟩
    cases hevent : t.event <;> simp [hevent, WatchEvent.isReset, listens, hp] at he hserved
  · rintro ⟨hserved, he⟩
    cases hevent : t.event <;> simp [hevent, WatchEvent.isReading, listens, hp] at he hserved

theorem path_climbs (hp : Path (step s) w ts w') (hreset : ∀ u ∈ ts, ¬ Resets u)
    (hw : 1 ≤ w.state.severity) : 1 ≤ w'.state.severity := by
  refine hp.preserves (P := fun v => 1 ≤ v.state.severity) hw ?_
  intro u hu hstep hbefore
  exact Nat.le_trans hbefore (move_keeps (step_move hstep) (hreset u hu)).1

theorem path_spent (hp : Path (step s) w ts w') (hreset : ∀ u ∈ ts, ¬ Resets u)
    (hread : ∀ u ∈ ts, ¬ ServesReading u) (hw : w.monitor.Spent s) : w'.monitor.Spent s := by
  refine hp.preserves (P := fun v => v.monitor.Spent s) hw ?_
  intro u hu hstep hspent
  obtain ⟨hle, hres⟩ := move_keeps (step_move hstep) (hreset u hu)
  exact Monitor.Spent.mono hspent (hres (hread u hu)) hle

theorem calls_spent (ht : t.Of (step s)) (hc : CallsReap s t) (hout : t.output ≠ []) :
    t.after.monitor.Spent s := by
  have hm := step_move ht
  rcases callsReap_iff.mp hc with ⟨-, immediate, he⟩ | ⟨time, d, hd, hcall⟩
  · rw [he] at hm
    exact absurd (move_shutdown_output hm) hout
  · exact move_calls_spent hm hd hcall

theorem empties_silent (ht : t.Of (step s)) (h : emptiesGroup s t) : t.output = [] := by
  obtain ⟨mode, stage, now, group, escalated, outcome, hp, he, hturn⟩ := turn_of_emptiesGroup h
  have hm := step_move ht
  rw [he] at hm
  generalize t.output = fx, t.after = w' at hm
  cases hm with
  | unheard | found | reaped => rfl
  | sent hp' ht' | paused hp' ht' | unreaped hp' ht' =>
    obtain ⟨rfl, rfl⟩ := WatchPhase.reaping.inj (hp.symm.trans hp')
    cases hturn.symm.trans ht'

theorem path_reap_silent (hp : Path (step s) w ts w') (hts : ∀ u ∈ ts, InReap u)
    (hw : w'.phase.isReaping) : ∀ u ∈ ts, ∀ time d, .diagnosed time d ∉ u.output := by
  induction hp with
  | nil => simp
  | @snoc ts t _ ht ih =>
    have hin : InReap t := hts t (by simp)
    intro u hu time d
    rcases List.mem_append.mp hu with hu | hu
    · exact ih (fun v hv => hts v (List.mem_append_left _ hv)) hin u hu time d
    · obtain rfl := List.mem_singleton.mp hu
      exact move_reap_silent (step_move ht) hin hw

theorem path_coherent (hp : Path (step s) (start s id now) ts w) : w.Coherent := by
  refine hp.preserves (start_coherent s id now) ?_
  intro u _ hstep hc
  exact (move_coherent hc (step_move hstep)).2

/-- What a watch can diagnose at step `t`, some steps `rest` after a reap has found the group empty. `call`
is the step that called for the reap. -/
structure Subsides (s : Settings) (call : WatchStep) (rest : List WatchStep) (t : WatchStep) : Prop where
  informed : ∀ time d, .diagnosed time d ∈ t.output → d.target.IsRaised → t.before.parentGone = false
  /-- After a reap that an alarm called for, and without a reset, the next diagnosis is the end. Else the
  group could not be looked at, or a reading was served before the news of the end. -/
  next : call.output ≠ [] → (∀ u ∈ rest ++ [t], ¬ Resets u) →
    ∀ time d, .diagnosed time d ∈ t.output → d.target = .gone ∨
      d.target = .unreapable ∧ (∃ why, t.event.probe? = some (.error (.unavailable why))) ∨
      d.target.IsRaised ∧ t.before.parentGone = false ∧ ∃ u ∈ rest, ServesReading u
  ends : ∀ now group, t.event = .tick now group → Served t → t.before.parentGone →
    Reap.FindsNobody group → ∃ d, .diagnosed now d ∈ t.output ∧ d.target = .gone

/-- Once a reap has returned and as long as nobody turns up in the group, whatever is served in whichever
order, the watch comes to diagnose the end of the workload and no other, but for alarms that it raises
before it is told of the end. Without a reset, only a reading served in between raises one. -/
theorem subsides_after_reap (s : Settings) (id : ProcessId) (now : Nat) (events : List WatchEvent)
    (hts : steps (step s) (start s id now) events =
      pre ++ call :: (reap ++ done :: (rest ++ t :: post)))
    (hcall : CallsReap s call) (hreap : ∀ u ∈ reap, InReap u) (hdone : emptiesGroup s done)
    (hlook : ∀ u ∈ rest ++ [t], u.event.namesNobody) :
    (∀ u ∈ reap ++ [done], ∀ time d, .diagnosed time d ∉ u.output) ∧ Subsides s call rest t := by
  obtain ⟨hpre, hcallOf, es, hafter⟩ := steps_split hts
  obtain ⟨hpreap, hdoneOf, es', hrest⟩ := steps_split hafter
  obtain ⟨hprest, ht, -⟩ := steps_split hrest
  have hm := step_move ht
  have hpast := (hpreap.snoc hdoneOf).append hprest
  refine ⟨?_, ?_, ?_, ?_⟩
  · intro u hu
    rcases List.mem_append.mp hu with hu | hu
    · exact path_reap_silent hpreap hreap (inReap_of_emptiesGroup hdone) u hu
    · obtain rfl := List.mem_singleton.mp hu
      simp [empties_silent hdoneOf hdone]
  · exact fun time d => move_raises hm
  · intro hout hresets time d hd
    have hquiet : ∀ u ∈ reap ++ [done], ¬ Resets u ∧ ¬ ServesReading u := by
      intro u hu
      rcases List.mem_append.mp hu with hu | hu
      · exact inReap_quiet (hreap u hu)
      · obtain rfl := List.mem_singleton.mp hu
        exact inReap_quiet (inReap_of_emptiesGroup hdone)
    have hpastResets : ∀ u ∈ reap ++ [done] ++ rest, ¬ Resets u := by
      intro u hu
      rcases List.mem_append.mp hu with hu | hu
      · exact (hquiet u hu).1
      · exact hresets u (List.mem_append_left _ hu)
    have hspent := calls_spent hcallOf hcall hout
    have hraised := path_climbs hpast hpastResets hspent.raised
    have hlast : t ∈ rest ++ [t] := by simp
    have hsays := move_says hm hd hraised (hresets t hlast) (hlook t hlast)
    refine hsays.imp_right (Or.imp_right ?_)
    rintro ⟨hkind, hrunning, hunspent⟩
    refine ⟨hkind, hrunning, Classical.byContradiction fun hnone => hunspent ?_⟩
    -- no reading came in, so the evidence is still spent
    refine path_spent hpast hpastResets ?_ hspent
    intro u hu hread
    rcases List.mem_append.mp hu with hu | hu
    · exact (hquiet u hu).2 hread
    · exact hnone ⟨u, hu, hread⟩
  · intro now group he hserved hgone hnobody
    have hc := path_coherent ((hpre.snoc hcallOf).append hpast)
    have hp : t.before.phase = .serving := by simpa [Served, he, listens] using hserved
    exact move_ends (he ▸ hm) hc hp hgone hnobody

def hasty : Settings :=
  { logs := { windowLines := 2, minLines := 2 }
    memory := { leakMinSamples := 2, leakMinSecs := 1 }
    assessment := { loopDwellSecs := 0 } }

def sameLine : OutputLine := ⟨⟨"again", "again", false⟩, "again"⟩

/-- A reading waits while the workload is reaped and is served before the news of its end. -/
def lateReading : List WatchEvent :=
  [.line 100 sameLine, .line 200 sameLine, .reading ⟨2000, 0, 1000, 10⟩, .tick 3000 (.ok [100]),
    .turn 3000 (.ok [100]) false, .turn 3600 (.ok []) false, .reading ⟨3500, 0, 1500, 20⟩,
    .tick 6000 (.ok []), .turn 6000 (.ok []) false, .exited none, .tick 9000 (.ok [])]

def lateSteps : List WatchStep := steps (step hasty) (start hasty ⟨100, 100⟩ 0) lateReading

theorem lateSteps_length : lateSteps.length = 11 := by decide +kernel

def lateStep (k : Fin 11) : WatchStep := lateSteps.get (k.cast lateSteps_length.symm)

theorem split_at_three (l : List WatchStep) (h : 7 < l.length) :
    l = l.take 3 ++ l[3] :: ([l[4]] ++ l[5] :: ([l[6]] ++ l[7] :: l.drop 8)) := by
  simp

theorem lateSteps_split : lateSteps = lateSteps.take 3 ++ lateStep 3 ::
    ([lateStep 4] ++ lateStep 5 :: ([lateStep 6] ++ lateStep 7 :: lateSteps.drop 8)) :=
  split_at_three lateSteps (by rw [lateSteps_length]; decide)

def loopAlarm : Diagnosis :=
  ⟨⟨100, 100⟩, .healthy, .stuck, "exact loop: 100% of 2 lines identical for 0s; last line: \"again\""⟩

def leakAlarm : Diagnosis :=
  ⟨⟨100, 100⟩, .stuck, .leaking, "memory grew 10 bytes across 2 consecutive samples over 1s"⟩

theorem lateSteps_reap : CallsReap hasty (lateStep 3) ∧ (lateStep 3).output ≠ [] ∧
    (∀ u ∈ [lateStep 4], InReap u) ∧ emptiesGroup hasty (lateStep 5) := by
  have hd : .diagnosed 3000 loopAlarm ∈ (lateStep 3).output := by decide +kernel
  have hin : (lateStep 4).before.phase.isReaping := by decide +kernel
  have hcall : CallsReap hasty (lateStep 3) := .alarmed rfl hd (.inl rfl)
  have hout : (lateStep 3).output ≠ [] := List.ne_nil_of_mem hd
  have hreap : ∀ u ∈ [lateStep 4], InReap u := by
    intro u hu
    rw [List.mem_singleton.mp hu]
    exact hin
  have hdone : emptiesGroup hasty (lateStep 5) := by decide +kernel
  exact ⟨hcall, hout, hreap, hdone⟩

theorem lateSteps_looks : ∀ u ∈ [lateStep 6] ++ [lateStep 7], u.event.namesNobody ∧ ¬ Resets u := by
  unfold Resets Served
  decide +kernel

theorem lateReading_subsides : CallsReap hasty (lateStep 3) ∧ (∀ u ∈ [lateStep 4], InReap u) ∧
    emptiesGroup hasty (lateStep 5) ∧ (∀ u ∈ [lateStep 6] ++ [lateStep 7], u.event.namesNobody) ∧
    Subsides hasty (lateStep 3) [lateStep 6] (lateStep 7) := by
  obtain ⟨hcall, -, hreap, hdone⟩ := lateSteps_reap
  have hlook := fun u hu => (lateSteps_looks u hu).1
  have hsubsides := subsides_after_reap hasty ⟨100, 100⟩ 0 lateReading lateSteps_split hcall hreap hdone
    hlook
  exact ⟨hcall, hreap, hdone, hlook, hsubsides.2⟩

/-- A reading that waited during the reap raises a second alarm, after the group was found empty and with
no reset. -/
theorem leaking_after_reap :
    hasty.action.mode = .kill ∧ ∃ pre call reap done rest t post,
      lateSteps = pre ++ call :: (reap ++ done :: (rest ++ t :: post)) ∧ CallsReap hasty call ∧
      call.output ≠ [] ∧ (∀ u ∈ reap, InReap u) ∧ emptiesGroup hasty done ∧
      (∀ u ∈ rest ++ [t], u.event.namesNobody ∧ ¬ Resets u) ∧
      ∃ time d, .diagnosed time d ∈ t.output ∧ d.target = .leaking := by
  obtain ⟨hcall, hout, hreap, hdone⟩ := lateSteps_reap
  have hd : .diagnosed 6000 leakAlarm ∈ (lateStep 7).output := by decide +kernel
  exact ⟨rfl, _, _, _, _, _, _, _, lateSteps_split, hcall, hout, hreap, hdone, lateSteps_looks,
    6000, leakAlarm, hd, rfl⟩

end Watch

end Vigil
