import Vigil.Proofs.Watch.Reaps
import Vigil.Proofs.Watch.Sessions
import Vigil.Report.Ledger

/-!
# Every diagnosis is recorded

A diagnosis is made, sent, received and recorded, and at any time between these the attendant may see a
terminal state, take a signal or stop listening. `Sitting.recorded_as_emitted`: nothing is lost, doubled
or put out of order on the way, a run whose watch is over can always be brought to its end, and then all
that was ever diagnosed is recorded and the status view tells the last of it.
-/

namespace Vigil

-- ---------------------------------------------------------------------------
-- The status view
-- ---------------------------------------------------------------------------

namespace Report

structure Entry where
  diagnosis : Diagnosis
  time : Instant
  write : WriteResult

namespace Ledger

def recordAll (l : Ledger) (es : List Entry) : Ledger :=
  es.foldl (fun l e => l.record e.diagnosis e.time e.write) l

/-- The status file shows this one workload, with the state and the evidence of the last diagnosis. -/
def Tells (l : Ledger) (id : ProcessId) (command : String) (ds : List Diagnosis) : Prop :=
  ∃ tracker since, l.status = some tracker ∧
    tracker.view = [⟨id, command, Watch.lastState ds, since, ds.getLast?.map (·.evidence)⟩]

variable {l : Ledger} {id : ProcessId} {command : String} {ds : List Diagnosis} {d : Diagnosis}

theorem track_tells (log : Option IncidentLog) (pid : Nat) (file : StatusFile) (id : ProcessId)
    (command : String) (now : Instant) (r : WriteResult) :
    Tells (Ledger.track { log, status := some { pid, file } } id command now r) id command [] :=
  ⟨_, now, rfl, rfl⟩

theorem Tells.record (h : l.Tells id command ds) (hd : d.process = id) (time : Instant) (r : WriteResult) :
    (l.record d time r).Tells id command (ds ++ [d]) := by
  obtain ⟨tracker, since, hs, hv⟩ := h
  refine ⟨tracker.apply d time time r, time, by simp [Ledger.record, hs], ?_⟩
  simp [StatusTracker.apply, hv, StatusView.get?, StatusView.apply, StatusTracker.update, hd,
    Watch.lastState]

theorem Tells.recordAll {es : List Entry} (h : l.Tells id command ds)
    (hes : ∀ e ∈ es, e.diagnosis.process = id) :
    (l.recordAll es).Tells id command (ds ++ es.map (·.diagnosis)) := by
  induction es generalizing l ds with
  | nil => simpa [recordAll] using h
  | cons e es ih =>
    have hfirst := h.record (hes e List.mem_cons_self) e.time e.write
    simpa [recordAll] using ih hfirst fun e he => hes e (List.mem_cons_of_mem _ he)

end Ledger
end Report

-- ---------------------------------------------------------------------------
-- What a watch says
-- ---------------------------------------------------------------------------

theorem Assessor.Judged.process {a : Assessor} (h : a.Judged r) :
    r.1.process = a.process ∧ ∀ d ∈ r.2, d.process = a.process := by
  cases h with
  | stays hp => exact ⟨hp, by simp⟩
  | turns hp _ hd => exact ⟨hp, by simpa using hd⟩

theorem Monitor.conclude_process {m : Monitor} {tracked : Tracked} (h : m.assessor.Judged r) :
    (conclude tracked now r).1.assessor.process = m.assessor.process ∧
      ∀ d ∈ (conclude tracked now r).2, d.process = m.assessor.process := by
  have hr : r = ((conclude tracked now r).1.assessor, (conclude tracked now r).2) := conclude_eq rfl
  rw [hr] at h
  exact h.process

namespace Watch

open Session (diagnosesOf)

variable {s : Settings} {w w' : Watch} {e : WatchEvent} {fx gx : List WatchEffect}

theorem diagnosesOf_append (fx gx : List WatchEffect) :
    diagnosesOf (fx ++ gx) = diagnosesOf fx ++ diagnosesOf gx := by
  induction fx with
  | nil => rfl
  | cons e fx ih => cases e <;> simp [diagnosesOf, ih]

theorem length_diagnosesOf_le (fx : List WatchEffect) : (diagnosesOf fx).length ≤ fx.length := by
  induction fx with
  | nil => exact Nat.le_refl _
  | cons e fx ih =>
    cases e with
    | diagnosed => simpa [diagnosesOf] using ih
    | signalled | paused => exact Nat.le_succ_of_le ih

theorem publish_process (w : Watch) (now : Nat) {process : ProcessId}
    (h : r.1.assessor.process = process ∧ ∀ d ∈ r.2, d.process = process) :
    (w.publish now r).1.monitor.assessor.process = process ∧
      ∀ d ∈ diagnosesOf (w.publish now r).2, d.2.process = process := by
  rw [publish_eq, Session.diagnosesOf_diagnosed]
  exact ⟨h.1, by simpa using h.2⟩

theorem move_process (hm : Move s w e w' fx) :
    w'.monitor.assessor.process = w.monitor.assessor.process ∧
      ∀ d ∈ diagnosesOf fx, d.2.process = w.monitor.assessor.process := by
  cases hm with
  | @ticked now group liveness r _ _ ht =>
    obtain ⟨judged, ho, rfl⟩ := Monitor.tick_eq_ok ht
    rw [respond_monitor]
    exact publish_process w now (Monitor.conclude_process (Assessor.observe_judged ho))
  | @reset now =>
    rw [settle_monitor]
    exact publish_process w now (Monitor.conclude_process Assessor.reset_judged)
  | @unreaped _ _ now =>
    rw [settle_monitor]
    exact publish_process w now (Monitor.conclude_process Assessor.abandon_judged)
  | found | reaped => exact ⟨by rw [settle_monitor], by simp [diagnosesOf]⟩
  | _ => exact ⟨rfl, by simp [diagnosesOf]⟩

theorem run_snoc (h : run s w es = .ok (w', fx)) (hstep : w'.step s e = .ok (w'', gx)) :
    run s w (es ++ [e]) = .ok (w'', fx ++ gx) := by
  induction es generalizing w fx with
  | nil =>
    cases h
    simp [run, hstep, Except.map]
  | cons f es ih =>
    obtain ⟨v, hx, ix, hf, hrun, rfl⟩ := run_cons_ok h
    simp [run, hf, ih hrun, Except.map]

theorem move_finished (hm : Move s w e w' fx) (hp : w.phase = .finished) : w' = w ∧ fx = [] := by
  cases hm with
  | unheard => exact ⟨rfl, rfl⟩
  | line hq | reading hq | lost hq | unmetered hq | exited hq | blind hq | ticked hq | reset hq
  | shutdown hq | commandsEnded hq | sent hq | paused hq | found hq | reaped hq | unreaped hq
  | collected hq | drained hq =>
    rw [hq] at hp
    cases hp

theorem run_process (h : run s w es = .ok (w', fx)) :
    ∀ d ∈ diagnosesOf fx, d.2.process = w.monitor.assessor.process := by
  induction es generalizing w fx with
  | nil =>
    cases h
    simp [diagnosesOf]
  | cons e es ih =>
    obtain ⟨v, gx, hx, hstep, hrun, rfl⟩ := run_cons_ok h
    obtain ⟨hv, hgx⟩ := move_process (step_move hstep)
    intro d hd
    rcases List.mem_append.mp (diagnosesOf_append gx hx ▸ hd) with hd | hd
    · exact hgx d hd
    · rw [← hv]
      exact ih hrun d hd

end Watch

-- ---------------------------------------------------------------------------
-- One step of a sitting
-- ---------------------------------------------------------------------------

theorem Attendance.receive_places (a : Attendance) :
    a.receive.recorded ++ a.receive.unread = a.recorded ++ a.unread := by
  unfold receive
  split
  · rename_i hu
    simp [hu]
  · rfl

namespace Sitting

open Session (diagnosesOf)

variable {s : Settings} {id : ProcessId} {now : Nat} {g g' : Sitting} {e : SessionEvent}

/-- Everything that the watch has diagnosed is somewhere, and in order. -/
structure Accounted (s : Settings) (id : ProcessId) (now : Nat) (g : Sitting) : Prop where
  made : ∃ served fx, Watch.run s (.start s id now) served = .ok (g.watch, fx) ∧
    g.emitted = diagnosesOf fx
  placed : g.attendance.recorded ++ g.attendance.unread ++ g.unsent = g.emitted
  fewUnsent : g.unsent.length ≤ 1
  broken : g.broken → g.unsent = []

theorem start_accounted (s : Settings) (id : ProcessId) (now : Nat) :
    (start s id now).Accounted s id now where
  made := ⟨[], [], rfl, rfl⟩
  placed := rfl
  fewUnsent := Nat.zero_le 1
  broken := fun _ => rfl

theorem Accounted.took {w : Watch} {fx : List WatchEffect} {f : WatchEvent} (h : g.Accounted s id now)
    (hb : g.broken = false) (hu : g.unsent = []) (hw : g.watch.step s f = .ok (w, fx)) :
    Accounted s id now { g with toSession := g.toSession.took w fx } where
  made := by
    obtain ⟨served, hx, hrun, he⟩ := h.made
    refine ⟨served ++ [f], hx ++ fx, Watch.run_snoc hrun hw, ?_⟩
    rw [Watch.diagnosesOf_append, ← he]
    rfl
  placed := by
    have hplaced := h.placed
    rw [hu] at hplaced
    simp [Session.took, ← hplaced]
  fewUnsent := Nat.le_trans (Watch.length_diagnosesOf_le fx) (Watch.move_output (Watch.step_move hw))
  broken := fun hbroken => absurd hbroken (by simp [hb])

theorem whole_of_served (h : g.broken → e = .receive ∨ ∃ sig now, e = .signal sig now)
    (hreceive : e ≠ .receive) (hsignal : ∀ sig now, e ≠ .signal sig now) : g.broken = false := by
  rw [Bool.eq_false_iff]
  intro hb
  rcases h hb with he | ⟨sig, now, he⟩
  · exact hreceive he
  · exact hsignal sig now he

theorem move_accounted (hm : Move s g e g') (h : g.Accounted s id now) : g'.Accounted s id now := by
  cases hm with
  | broke _ hu => exact ⟨h.made, h.placed, h.fewUnsent, fun _ => hu⟩
  | dead | deserted => exact ⟨h.made, h.placed, h.fewUnsent, h.broken⟩
  | collected => exact ⟨h.made, by simpa [Attendance.collect] using h.placed, h.fewUnsent, h.broken⟩
  | @moved e n hn hlive =>
    cases hn with
    | idle | signalled | left => exact ⟨h.made, h.placed, h.fewUnsent, h.broken⟩
    | received =>
      have hplaced := h.placed
      rw [← Attendance.receive_places] at hplaced
      exact ⟨h.made, hplaced, h.fewUnsent, h.broken⟩
    | collected => exact ⟨h.made, by simpa [Attendance.collect] using h.placed, h.fewUnsent, h.broken⟩
    | @sent d rest hu =>
      have hfew := h.fewUnsent
      have hplaced := h.placed
      rw [hu] at hfew hplaced
      refine ⟨h.made, by simpa [Attendance.deliver] using hplaced, Nat.le_of_succ_le hfew, ?_⟩
      intro hb
      rw [h.broken hb] at hu
      cases hu
    | fed _ hu hw => exact h.took (whole_of_served hlive (by simp) (by simp)) hu hw
    | @obeyed r rest _ _ _ hu _ hw =>
      have hrest : Accounted s id now { g with requests := rest } :=
        ⟨h.made, h.placed, h.fewUnsent, h.broken⟩
      exact hrest.took (whole_of_served hlive (by simp) (by simp)) hu hw
    | turned hu hw => exact h.took (whole_of_served hlive (by simp) (by simp)) hu hw

-- ---------------------------------------------------------------------------
-- The end of a sitting
-- ---------------------------------------------------------------------------

def Over (g : Sitting) : Prop := g.broken ∨ g.watch.phase = .finished

/-- Nobody listens any more to a watch that is over, and what it had to send is sent. -/
structure Closing (g : Sitting) : Prop where
  ended : g.Over
  sent : g.unsent = []
  deaf : g.attendance.listening = false

theorem step_collect (h : g.Closing) :
    g.step s .collect = { g with attendance := g.attendance.collect } := by
  cases hb : g.broken with
  | true => simp [step, hb, h.deaf]
  | false =>
    have hp : g.watch.phase = .finished := h.ended.resolve_left (by simp [hb])
    simp [step_of_whole hb, proceed, Session.step, hb, hp, h.sent, h.deaf]

theorem took_of_finished {w : Watch} {fx : List WatchEffect} {f : WatchEvent} (hp : g.watch.phase = .finished)
    (hu : g.unsent = []) (hw : g.watch.step s f = .ok (w, fx)) : g.toSession.took w fx = g.toSession := by
  obtain ⟨rfl, rfl⟩ := Watch.move_finished (Watch.step_move hw) hp
  have htook : g.toSession.took g.watch [] = { g.toSession with unsent := [] } := by
    simp [Session.took, Session.diagnosesOf, Session.signalsOf]
  rw [htook, ← hu]

theorem move_closing (hm : Move s g e g') (hc : g.Closing) (hr : g.attendance.unread = []) :
    g'.Closing ∧ g'.attendance.unread = [] ∧ g'.emitted = g.emitted := by
  cases hm with
  | broke => exact ⟨⟨.inl rfl, hc.sent, hc.deaf⟩, hr, rfl⟩
  | dead => exact ⟨hc, hr, rfl⟩
  | deserted => exact ⟨⟨hc.ended, hc.sent, rfl⟩, hr, rfl⟩
  | collected => exact ⟨⟨hc.ended, hc.sent, hc.deaf⟩, rfl, rfl⟩
  | @moved e n hn hlive =>
    cases hn with
    | idle => exact ⟨hc, hr, rfl⟩
    | left => exact ⟨⟨hc.ended, hc.sent, rfl⟩, hr, rfl⟩
    | collected => exact ⟨⟨hc.ended, hc.sent, hc.deaf⟩, rfl, rfl⟩
    | received =>
      have hsame : g.attendance.receive = g.attendance := by simp [Attendance.receive, hr]
      rw [hsame]
      exact ⟨hc, hr, rfl⟩
    | signalled hl =>
      rw [hc.deaf] at hl
      cases hl
    | sent hu =>
      rw [hc.sent] at hu
      cases hu
    | obeyed hp =>
      have hb := whole_of_served hlive (by simp) (by simp)
      have hfinished := hc.ended.resolve_left (by simp [hb])
      rw [hp] at hfinished
      cases hfinished
    | fed _ hu hw | turned hu hw =>
      have hb := whole_of_served hlive (by simp) (by simp)
      rw [took_of_finished (hc.ended.resolve_left (by simp [hb])) hu hw]
      exact ⟨hc, hr, rfl⟩

def play (s : Settings) (g : Sitting) (events : List SessionEvent) : Sitting := events.foldl (step s) g

theorem play_accounted (h : g.Accounted s id now) (events : List SessionEvent) :
    (play s g events).Accounted s id now := by
  induction events generalizing g with
  | nil => exact h
  | cons e events ih => exact ih (move_accounted (step_move s g e) h)

theorem play_closing (hc : g.Closing) (hr : g.attendance.unread = []) (events : List SessionEvent) :
    (play s g events).Closing ∧ (play s g events).attendance.unread = [] ∧
      (play s g events).emitted = g.emitted := by
  induction events generalizing g with
  | nil => exact ⟨hc, hr, rfl⟩
  | cons e events ih =>
    obtain ⟨hc', hr', he⟩ := move_closing (step_move s g e) hc hr
    rw [← he]
    exact ih hc' hr'

theorem Accounted.published (h : g.Accounted s id now) (hp : g.watch.phase = .finished) :
    g.watch.published.isTerminal := by
  obtain ⟨served, fx, hrun, -⟩ := h.made
  have hc := (Watch.run_coherent (Watch.start_coherent s id now) hrun).2
  rw [hc.published, ← hc.ended, hp]
  rfl

/-- A watch that is over has sent all, and its attendant leaves, whenever they come to it. -/
theorem Accounted.closes (h : g.Accounted s id now) (ho : g.Over) : (play s g [.send, .leave]).Closing := by
  cases hb : g.broken with
  | true =>
    have hplay : play s g [.send, .leave] = { g with attendance := g.attendance.leave } := by
      simp [play, step, hb]
    rw [hplay]
    exact ⟨ho, h.broken hb, rfl⟩
  | false =>
    have hp : g.watch.phase = .finished := ho.resolve_left (by simp [hb])
    have hterm := h.published hp
    cases hu : g.unsent with
    | nil =>
      have hplay : play s g [.send, .leave] = { g with attendance := g.attendance.leave } := by
        simp [play, step_of_whole, proceed, Session.step, hb, hu, hterm]
      rw [hplay]
      exact ⟨ho, hu, rfl⟩
    | cons d rest =>
      have hrest : rest = [] := by simpa [hu] using h.fewUnsent
      have hplay : play s g [.send, .leave] =
          { g with unsent := [], attendance := (g.attendance.deliver d).leave } := by
        simp [play, step_of_whole, proceed, Session.step, hb, hu, hrest, hterm]
      rw [hplay]
      exact ⟨ho, rfl, rfl⟩

theorem Accounted.complete (h : g.Accounted s id now) (hc : g.Closing) (later : List SessionEvent) :
    (play s (g.step s .collect) later).attendance.recorded = g.emitted ∧
      (play s (g.step s .collect) later).emitted = g.emitted := by
  have hplaced := (play_accounted (move_accounted (step_move s g .collect) h) later).placed
  rw [step_collect hc] at hplaced ⊢
  have hcollected : Closing { g with attendance := g.attendance.collect } := ⟨hc.ended, hc.sent, hc.deaf⟩
  obtain ⟨hend, hread, hemitted⟩ := play_closing (s := s) hcollected rfl later
  rw [hread, hend.sent, hemitted] at hplaced
  exact ⟨by simpa using hplaced, hemitted⟩

theorem Accounted.process (h : g.Accounted s id now) {d : TimedDiagnosis} (hd : d ∈ g.attendance.recorded) :
    d.2.process = id := by
  obtain ⟨served, fx, hrun, he⟩ := h.made
  refine Watch.run_process hrun d ?_
  rw [← he, ← h.placed]
  simp [hd]

/-- Wherever a run stands, this holds of what was diagnosed, sent and recorded so far. -/
structure RecordsAll (s : Settings) (id : ProcessId) (now : Nat) (g : Sitting) : Prop where
  made : ∃ served fx, Watch.run s (.start s id now) served = .ok (g.watch, fx) ∧
    g.emitted = diagnosesOf fx
  placed : g.attendance.recorded ++ g.attendance.unread ++ g.unsent = g.emitted
  closes : g.Over → (play s g [.send, .leave]).Closing
  complete : g.Closing → ∀ later, (play s (g.step s .collect) later).attendance.recorded = g.emitted ∧
    (play s (g.step s .collect) later).emitted = g.emitted
  told : ∀ log pid file command begun written entries,
    entries.map (·.diagnosis) = g.attendance.recorded.map (·.2) →
    let ledger := Report.Ledger.track { log, status := some { pid, file } } id command begun written
    (ledger.recordAll entries).Tells id command (g.attendance.recorded.map (·.2))

/-- Whatever the order in which diagnoses are made, sent and received, signals are served and the attendant
leaves: what is recorded is what was diagnosed, and the status view tells the last of it. -/
theorem recorded_as_emitted (s : Settings) (id : ProcessId) (now : Nat) (events : List SessionEvent) :
    RecordsAll s id now (play s (start s id now) events) := by
  have h := play_accounted (start_accounted s id now) events
  refine ⟨h.made, h.placed, h.closes, h.complete, ?_⟩
  intro log pid file command begun written entries hes ledger
  have htells := Report.Ledger.track_tells log pid file id command begun written
  rw [← hes]
  refine htells.recordAll fun e he => ?_
  have hrecorded : e.diagnosis ∈ entries.map (·.diagnosis) := List.mem_map_of_mem he
  rw [hes] at hrecorded
  obtain ⟨d, hd, hde⟩ := List.mem_map.mp hrecorded
  rw [← hde]
  exact h.process hd

/-- A workload comes to its end by itself, and the attendant leaves before its diagnosis was received. -/
def departed : List SessionEvent :=
  [.feed (.exited (some 0)), .feed (.tick 1000 (.ok [])), .send, .leave]

theorem departed_recorded :
    let gone : Diagnosis := ⟨⟨7, 7⟩, .healthy, .gone, "process group 7 has no live members"⟩
    let g := play {} (start {} ⟨7, 7⟩ 0) departed
    g.Closing ∧ g.emitted = [(1000, gone)] ∧
      ∀ later, (play {} (g.step {} .collect) later).attendance.recorded = [(1000, gone)] := by
  intro gone g
  have hclosing : g.Closing := ⟨.inr rfl, rfl, rfl⟩
  have hemitted : g.emitted = [(1000, gone)] := by decide +kernel
  refine ⟨hclosing, hemitted, fun later => ?_⟩
  rw [← hemitted]
  exact ((recorded_as_emitted {} ⟨7, 7⟩ 0 departed).complete hclosing later).1

end Sitting

end Vigil
