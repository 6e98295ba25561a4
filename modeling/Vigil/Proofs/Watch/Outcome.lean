import Vigil.Proofs.Watch.Observed
import Vigil.Watch.Attendance

/-!
# What the end of a watch tells

The outcome of a watch says whether its group was signalled and with which code the process ended, and
from that comes the exit code of the whole run. `Watched.outcome_tells`: however many reaps there were and
whatever came in whichever order, the outcome says what happened. A watch is `Marked` from the first
signal on, and a wait is reported once.
-/

namespace Vigil

-- ---------------------------------------------------------------------------
-- One step of a watch
-- ---------------------------------------------------------------------------

namespace Watch

variable {s : Settings} {w w' : Watch} {e : WatchEvent} {fx : List WatchEffect}

/-- The watch has noted that its group was signalled, or is in a reap that goes beyond its opening. -/
def Marked (w : Watch) : Prop :=
  w.terminated ∨ ∃ mode stage, w.phase = .reaping mode stage ∧ stage ≠ .opening

theorem marked_of_reaping (hp : w.phase = .reaping mode stage) :
    w.Marked ↔ w.terminated ∨ stage ≠ .opening := by
  unfold Marked
  rw [hp]
  constructor
  · rintro (h | ⟨mode', stage', h, hne⟩)
    · exact .inl h
    · obtain ⟨-, rfl⟩ := WatchPhase.reaping.inj h
      exact .inr hne
  · exact Or.imp_right fun h => ⟨mode, stage, rfl, h⟩

theorem marked_of_not_reaping (hp : w.phase.isReaping = false) : w.Marked ↔ w.terminated := by
  refine ⟨?_, .inl⟩
  rintro (h | ⟨mode, stage, h, -⟩)
  · exact h
  · rw [h] at hp
    cases hp

theorem settle_marked (w : Watch) : w.settle.Marked ↔ w.terminated := by
  rw [marked_of_not_reaping (settle_not_reaping w)]
  obtain ⟨p, hs, -, -⟩ := settle_phase w
  rw [hs]

theorem respond_marked (s : Settings) (w : Watch) (out : Option Diagnosis) :
    (respond s w out).Marked ↔ w.terminated := by
  rcases respond_cases s w out with h | ⟨d, -, -, h⟩
  · rw [h, settle_marked]
  · rw [h, marked_of_reaping rfl]
    simp

@[simp] theorem publish_exit (r : Monitor × Option Diagnosis) :
    (w.publish now r).1.exit = w.exit := by
  rw [publish_eq]

@[simp] theorem settle_exit (w : Watch) : w.settle.exit = w.exit := by
  obtain ⟨p, hs, -, -⟩ := settle_phase w
  rw [hs]

@[simp] theorem respond_exit (s : Settings) (w : Watch) (out : Option Diagnosis) :
    (respond s w out).exit = w.exit := by
  rcases respond_cases s w out with h | ⟨d, -, -, h⟩ <;> simp [h]

/-- A step marks a watch just when it sends a signal, and no step takes the mark away. -/
theorem move_marked (hn : 1 ≤ s.reaping.maxAttempts) (hm : Move s w e w' fx) :
    w'.Marked ↔ w.Marked ∨ SendsSignal fx := by
  have hturn : ∀ {mode stage now group escalated r}, w.phase = .reaping mode stage →
      Reap.turn s.reaping w.id.pgid mode stage now group escalated = r →
      (∀ target signal next, r ≠ .send target signal next) → r ≠ .done .alreadyReaped → w.Marked := by
    intro mode stage now group escalated r hp ht hsend hr
    have hstage := mt (Reap.opening_iff hn ht hsend).mp hr
    exact (marked_of_reaping hp).mpr (.inr hstage)
  cases hm with
  | unheard | unmetered | blind | line | reading | lost | exited | commandsEnded =>
    simp [SendsSignal, Marked]
  | ticked hp =>
    rw [respond_marked, marked_of_not_reaping (w := w) (by rw [hp]; rfl)]
    simp [SendsSignal, publish_eq]
  | reset hp =>
    rw [settle_marked, marked_of_not_reaping (w := w) (by rw [hp]; rfl)]
    simp [SendsSignal, publish_eq]
  | shutdown hp =>
    rw [marked_of_reaping rfl, marked_of_not_reaping (w := w) (by rw [hp]; rfl)]
    simp [SendsSignal]
  | sent hp ht =>
    have hnext := Reap.ne_opening_of_turn ht rfl
    rw [marked_of_reaping rfl]
    simp [SendsSignal, hnext]
  | paused hp ht =>
    have hnext := Reap.ne_opening_of_turn ht rfl
    have hmarked := hturn hp ht (by simp) (by simp)
    rw [marked_of_reaping rfl]
    simp [hmarked, hnext]
  | found hp ht =>
    have hopening := (Reap.opening_iff hn ht (by simp)).mpr rfl
    rw [settle_marked, marked_of_reaping hp]
    simp [SendsSignal, hopening]
  | reaped hp ht =>
    have hmarked := hturn hp ht (by simp) (by simp)
    rw [settle_marked]
    simp [hmarked]
  | unreaped hp ht =>
    have hmarked := hturn hp ht (by simp) (by simp)
    rw [settle_marked]
    simp [hmarked]
  | collected hp | drained hp =>
    rw [marked_of_not_reaping rfl, marked_of_not_reaping (w := w) (by rw [hp]; rfl)]
    simp [SendsSignal]

theorem move_exit (hm : Move s w e w' fx) :
    w'.exit = w.exit ∨ ∃ code, e = .exited code ∧ w'.exit = some code := by
  cases hm with
  | exited | collected => exact .inr ⟨_, rfl, rfl⟩
  | ticked | reset | found | reaped | unreaped => exact .inl (by simp)
  | _ => exact .inl rfl

theorem move_exited (hm : Move s w (.exited code) w' fx)
    (hp : w.phase = .serving ∨ w.phase = .draining) : w'.exit = some code := by
  cases hm with
  | exited | collected => rfl
  | unheard hl => rcases hp with hp | hp <;> simp [listens, hp] at hl

end Watch

-- ---------------------------------------------------------------------------
-- One report of the wait
-- ---------------------------------------------------------------------------

def WatchEvent.exitCode? : WatchEvent → Option (Option Int)
  | .exited code => some code
  | _ => none

namespace Watched

variable {s : Settings} {id : ProcessId} {now : Nat} {w w' : Watched} {e : WatchedEvent}
  {fx : List WatchEffect} {t : WatchedStep} {ts : List WatchedStep}

def Receives (code : Option Int) (t : WatchedStep) : Prop :=
  t.event = .take ∧ (t.before.watch.phase = .serving ∨ t.before.watch.phase = .draining) ∧
    t.before.queue.head? = some (.exited code)

/-- How the process ended according to whoever waited for it, whether or not the watch knows. -/
def reports (w : Watched) : List (Option Int) :=
  w.queue.filterMap WatchEvent.exitCode? ++ w.watch.exit.toList

structure WaitedOnce (w : Watched) : Prop where
  single : (reports w).length ≤ 1
  early : w.waitOver = false → reports w = []
  own : ∀ code, some code ∈ reports w → w.ended = some (some code)

theorem WaitedOnce.of_eq (hw : w.WaitedOnce) (hr : reports w' = reports w)
    (ho : w'.waitOver = w.waitOver) (he : ∀ code, w.ended = some (some code) → w'.ended = w.ended) :
    w'.WaitedOnce where
  single := by rw [hr]; exact hw.single
  early := by rw [hr, ho]; exact hw.early
  own := by
    intro code hcode
    rw [hr] at hcode
    have hended := hw.own code hcode
    rw [he code hended, hended]

theorem waitedOnce_of_single (hr : reports w = [code]) (ho : w.waitOver)
    (he : ∀ c, code = some c → w.ended = some (some c)) : w.WaitedOnce where
  single := by simp [hr]
  early := by simp [ho]
  own := by
    intro c hc
    rw [hr, List.mem_singleton] at hc
    exact he c hc.symm

theorem reports_of_early (h : reports w = []) :
    reports { w with waitOver := true, queue := w.queue ++ [.exited code] } = [code] := by
  obtain ⟨hqueue, hexit⟩ := List.append_eq_nil_iff.mp h
  simp [reports, WatchEvent.exitCode?, hqueue, hexit]

theorem Brings.exitCode?_look (h : Brings w (.look now tree) n) : n.exitCode? = none := by
  cases h <;> rfl

theorem eq_of_exitCode? {n : WatchEvent} (h : n.exitCode? = some code) : n = .exited code := by
  cases n <;> cases h
  rfl

theorem exitCode?_of_direct {n : WatchEvent} (h : n.isDirect) : n.exitCode? = none := by
  cases n <;> first | rfl | cases h

theorem move_exit_eq {n : WatchEvent} {v v' : Watch} (hm : Watch.Move s v n v' fx)
    (hn : n.exitCode? = none) : v'.exit = v.exit := by
  rcases Watch.move_exit hm with h | ⟨code, rfl, -⟩
  · exact h
  · cases hn

theorem move_waitedOnce (hw : w.WaitedOnce) (hm : Move s w e w' fx) : w'.WaitedOnce := by
  cases hm with
  | line => exact hw.of_eq (by simp [reports, bring, WatchEvent.exitCode?]) rfl fun _ _ => rfl
  | @looked now tree =>
    obtain ⟨meter, news, heq, hnews⟩ := look_eq w now tree
    have hnone : news.filterMap WatchEvent.exitCode? = [] :=
      List.filterMap_eq_nil_iff.mpr fun n hn => (hnews n hn).exitCode?_look
    rw [heq]
    exact hw.of_eq (by simp [reports, hnone]) rfl fun _ _ => rfl
  | @ended code =>
    exact hw.of_eq rfl rfl fun c hc => by simp [endWith, hc]
  | @waited result =>
    rcases finishWait_eq w result with heq | ⟨n, hn, heq⟩
    · rwa [heq]
    · rw [heq]
      cases hn with
      | collected hended hover =>
        exact waitedOnce_of_single (reports_of_early (hw.early hover)) rfl
          fun c hc => by rw [← hc]; exact hended
      | failed hover => exact waitedOnce_of_single (reports_of_early (hw.early hover)) rfl (by simp)
  | idle | ignored => exact hw
  | @took n rest v fx hq hp hv =>
    cases hn : n.exitCode? with
    | none => exact hw.of_eq (by simp [reports, hq, hn, move_exit_eq hv hn]) rfl fun _ _ => rfl
    | some code =>
      obtain rfl := eq_of_exitCode? hn
      have hreports : reports w = code :: (rest.filterMap WatchEvent.exitCode? ++ w.watch.exit.toList) := by
        simp [reports, hq, hn]
      -- there is room for one report only, and it is the one just taken
      have hothers : rest.filterMap WatchEvent.exitCode? ++ w.watch.exit.toList = [] := by
        simpa [hreports] using hw.single
      have hr : reports { w with queue := rest, watch := v } = [code] := by
        simp [reports, Watch.move_exited hv hp, (List.append_eq_nil_iff.mp hothers).1]
      refine waitedOnce_of_single hr ?_ ?_
      · refine Bool.not_eq_false _ |>.mp fun hover => ?_
        simp [hw.early hover] at hreports
      · rintro c rfl
        exact hw.own c (by simp [hreports])
  | heard hd hv =>
    exact hw.of_eq (by simp [reports, move_exit_eq hv (exitCode?_of_direct hd)]) rfl fun _ _ => rfl

theorem receives_move (ht : t.Of (step s)) (hr : Receives code t) :
    Watch.Move s t.before.watch (.exited code) t.after.watch t.output := by
  obtain ⟨w, e, fx, w'⟩ := t
  obtain ⟨rfl, (hp : w.watch.phase = _ ∨ w.watch.phase = _), (hhead : w.queue.head? = _)⟩ := hr
  obtain ⟨rest, hq⟩ : ∃ rest, w.queue = .exited code :: rest := List.head?_eq_some_iff.mp hhead
  have hstep : w.step s .take = { w with queue := rest }.serve s (.exited code) := by
    simp [step, take, hq, hp]
  obtain ⟨v, hm, rfl⟩ := serve_eq_ok (hstep.symm.trans ht)
  exact hm

theorem step_exit (ht : t.Of (step s)) :
    (¬ ∃ code, Receives code t) ∧ t.after.watch.exit = t.before.watch.exit ∨
      ∃ code, Receives code t ∧ t.after.watch.exit = some code := by
  by_cases hr : ∃ code, Receives code t
  · obtain ⟨code, hr⟩ := hr
    exact .inr ⟨code, hr, Watch.move_exited (receives_move ht hr) hr.2.1⟩
  · refine .inl ⟨hr, ?_⟩
    rcases move_watch (step_move ht) with ⟨heq, -⟩ | ⟨n, hoffers, hm⟩
    · rw [heq]
    · rcases Watch.move_exit hm with h | ⟨code, rfl, -⟩
      · exact h
      · cases hoffers with
        | queued he hq hp => exact absurd ⟨code, he, hp, by simp [hq]⟩ hr
        | direct _ hd => cases hd

-- ---------------------------------------------------------------------------
-- Whole runs
-- ---------------------------------------------------------------------------

theorem path_waitedOnce (hp : Path (step s) (start s id now) ts w) : w.WaitedOnce := by
  refine hp.preserves ⟨by simp [reports, start, Watch.start], fun _ => rfl, ?_⟩ ?_
  · intro code hcode
    simp [reports, start, Watch.start] at hcode
  · intro t _ ht hw
    exact move_waitedOnce hw (step_move ht)

theorem path_exit (hp : Path (step s) (start s id now) ts w) (code : Option Int) :
    w.watch.exit = some code ↔ ∃ t ∈ ts, Receives code t := by
  induction hp with
  | nil => simp [start, Watch.start]
  | @snoc ts t hp ht ih =>
    rw [exists_mem_snoc, ← ih]
    rcases step_exit ht with ⟨hnone, heq⟩ | ⟨c, hc, heq⟩
    · have hnot : ¬ Receives code t := fun h => hnone ⟨code, h⟩
      simp [heq, hnot]
    · -- what is received was not yet known, for it stood in the queue
      have hbefore : t.before.watch.exit = none := by
        obtain ⟨rest, hq⟩ := List.head?_eq_some_iff.mp hc.2.2
        have hsingle := (path_waitedOnce hp).single
        simp only [reports, hq, WatchEvent.exitCode?, List.filterMap_cons, List.cons_append,
          List.length_cons, List.length_append] at hsingle
        cases hexit : t.before.watch.exit with
        | none => rfl
        | some _ =>
          rw [hexit, Option.toList_some, List.length_singleton] at hsingle
          omega
      have hsame : Receives code t ↔ c = code := by
        constructor
        · intro h
          simpa using hc.2.2.symm.trans h.2.2
        · rintro rfl
          exact hc
      simp [hbefore, heq, hsame]

theorem path_marked (hn : 1 ≤ s.reaping.maxAttempts) (hp : Path (step s) (start s id now) ts w) :
    w.watch.Marked ↔ ∃ t ∈ ts, Watch.SendsSignal t.output := by
  induction hp with
  | nil => simp [start, Watch.start, Watch.Marked]
  | @snoc ts t hp ht ih =>
    rw [exists_mem_snoc, ← ih]
    rcases move_watch (step_move ht) with ⟨heq, hnone⟩ | ⟨n, -, hm⟩
    · simp [heq, hnone, Watch.SendsSignal]
    · exact Watch.move_marked hn hm

-- ---------------------------------------------------------------------------
-- The exit code of the run
-- ---------------------------------------------------------------------------

theorem runCode_eq_zero {o : WatchOutcome} :
    runCode (some o) = 0 ↔ o.finalState ≠ .unreapable ∧ ¬ o.terminated ∧ o.exitCode = some 0 := by
  simp only [runCode]
  split
  · rename_i h
    refine iff_of_false (by decide) ?_
    rintro ⟨hstate, hclean, -⟩
    exact h.elim hstate hclean
  · rename_i h
    obtain ⟨hstate, hclean⟩ := not_or.mp h
    cases hexit : o.exitCode <;> simp [hstate, hclean]

theorem runCode_of_ne_zero {o : WatchOutcome} (h : runCode (some o) ≠ 0) :
    runCode (some o) = 1 ∨
      ∃ code, code ≠ 0 ∧ o.exitCode = some code ∧ runCode (some o) = code := by
  by_cases hfault : o.finalState = .unreapable ∨ o.terminated
  · exact .inl (if_pos hfault)
  · have hcode : runCode (some o) = o.exitCode.getD 1 := if_neg hfault
    rw [hcode] at h ⊢
    cases hexit : o.exitCode with
    | none => exact .inl rfl
    | some code =>
      rw [hexit] at h
      exact .inr ⟨code, h, rfl, rfl⟩

theorem finished_gone_iff {v : Watch} (hc : v.Coherent) (hend : v.phase = .finished) :
    v.outcome.finalState = .gone ↔ v.outcome.finalState ≠ .unreapable := by
  have hterm : v.state.isTerminal := by
    rw [← hc.ended, hend]
    rfl
  show v.state = .gone ↔ v.state ≠ .unreapable
  revert hterm
  cases v.state <;> decide

/-- Whatever came in whichever order, and however many reaps there were, the outcome of a watch that has
ended says that the group was signalled just when it was. The exit code of the run is zero just when the
workload was gone at the end, no signal was sent and an exit with code zero was received; otherwise it is
one, or the code other than zero with which the process ended. -/
theorem outcome_tells (s : Settings) (id : ProcessId) (now : Nat) (hn : 1 ≤ s.reaping.maxAttempts)
    (hp : Path (step s) (start s id now) ts w) (hend : w.watch.phase = .finished) :
    (w.watch.outcome.terminated ↔ ∃ t ∈ ts, Watch.SendsSignal t.output) ∧
    (runCode (some w.watch.outcome) = 0 ↔ w.watch.outcome.finalState = .gone ∧
      (¬ ∃ t ∈ ts, Watch.SendsSignal t.output) ∧ ∃ t ∈ ts, Receives (some 0) t) ∧
    (runCode (some w.watch.outcome) ≠ 0 → runCode (some w.watch.outcome) = 1 ∨
      ∃ code, code ≠ 0 ∧ w.ended = some (some code) ∧ runCode (some w.watch.outcome) = code) := by
  have hmarked : w.watch.terminated ↔ ∃ t ∈ ts, Watch.SendsSignal t.output := by
    rw [← path_marked hn hp]
    exact (Watch.marked_of_not_reaping (by rw [hend]; rfl)).symm
  have hexit : ∀ code, w.watch.outcome.exitCode = some code ↔ w.watch.exit = some (some code) :=
    fun code => Option.join_eq_some_iff
  refine ⟨hmarked, ?_, fun hcode => ?_⟩
  · rw [runCode_eq_zero, hexit, path_exit hp, finished_gone_iff (path_coherent hp) hend, ← hmarked]
    rfl
  · refine (runCode_of_ne_zero hcode).imp_right ?_
    rintro ⟨code, hne, hseen, hrun⟩
    have hreported : some code ∈ reports w := by
      simp [reports, (hexit code).mp hseen]
    exact ⟨code, hne, (path_waitedOnce hp).own code hreported, hrun⟩

/-- The meter finds the process gone before its exit is collected, and a tick finds the group empty. -/
def drainingEvents : List WatchedEvent :=
  [.ends (some 0), .look 500 (.error .gone), .take, .direct (.tick 1000 (.ok [])),
    .waited (.collected (some 0)), .take]

def drainingRun : List WatchedStep := steps (step {}) (start {} ⟨100, 100⟩ 0) drainingEvents

theorem outcome_of_drainingRun : ∃ w, Path (step {}) (start {} ⟨100, 100⟩ 0) drainingRun w ∧
    w.watch.phase = .finished ∧ runCode (some w.watch.outcome) = 0 ∧
    w.watch.outcome.finalState = .gone ∧ (¬ ∃ t ∈ drainingRun, Watch.SendsSignal t.output) ∧
    ∃ t ∈ drainingRun, Receives (some 0) t := by
  have hts : drainingRun = drainingRun.take 5 ++ drainingRun.get ⟨5, by decide⟩ :: [] := rfl
  obtain ⟨hbefore, ht, -⟩ := steps_split hts
  have hp := hbefore.snoc ht
  rw [← hts] at hp
  have htells := outcome_tells {} ⟨100, 100⟩ 0 (by decide) hp rfl
  have hcode : runCode (some (drainingRun.get ⟨5, by decide⟩).after.watch.outcome) = 0 := by decide
  exact ⟨_, hp, rfl, hcode, htells.2.1.mp hcode⟩

end Watched

end Vigil
