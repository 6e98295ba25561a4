import Vigil.Proofs.Watch.Feeding
import Vigil.Proofs.Watch.Reaps

/-!
# Observing a live process

A watch that only observes should neither take a live process for one that left orphans behind nor signal
its group. What it knows of the process comes from whoever waits for its exit and from the meter. A wait
that fails is reported like an exit, so the watch can be misled while the process lives.
`Watched.misled_only_by_failed_wait` says that nothing else misleads it, and what follows then.
-/

namespace Vigil

-- ---------------------------------------------------------------------------
-- One step of a watch
-- ---------------------------------------------------------------------------

namespace Watch

variable {s : Settings} {w w' : Watch} {e : WatchEvent} {fx : List WatchEffect}

def FindsOrphans (fx : List WatchEffect) : Prop := ∃ time d, .diagnosed time d ∈ fx ∧ d.target = .zombie

def FindsMembers (w : Watch) (e : WatchEvent) : Prop :=
  w.phase = .serving ∧ ∃ now m ms, e = .tick now (.ok (m :: ms))

def Strikes (s : Settings) (w : Watch) (e : WatchEvent) : Prop :=
  ∃ mode stage now group escalated pgid signal next, w.phase = .reaping mode stage ∧
    e = .turn now group escalated ∧
    Reap.turn s.reaping w.id.pgid mode stage now group escalated = .send pgid signal next

theorem publish_finds_iff :
    FindsOrphans (w.publish now r).2 ↔ ∃ d ∈ r.2, d.target = .zombie := by
  simp only [FindsOrphans, mem_publish]
  constructor
  · rintro ⟨time, d, ⟨-, hd⟩, hz⟩
    exact ⟨d, hd, hz⟩
  · rintro ⟨d, hd, hz⟩
    exact ⟨now, d, ⟨rfl, hd⟩, hz⟩

theorem liveness_members (hg : w.parentGone) :
    w.liveness? (.ok (m :: ms)) = some (.parentGone (ms.length + 1)) := by
  simp [liveness?, hg]

theorem liveness_parentGone (h : w.liveness? group = some (.parentGone n)) :
    w.parentGone ∧ ∃ m ms, group = .ok (m :: ms) := by
  unfold liveness? at h
  split at h
  · rename_i hg
    split at h
    · cases h
    · rename_i members hne
      obtain ⟨m, ms, rfl⟩ := List.exists_cons_of_ne_nil hne
      exact ⟨hg, m, ms, rfl⟩
    · cases h
    · cases h
  · cases h

theorem move_finds_iff (hm : Move s w e w' fx) (hc : w.Coherent) :
    FindsOrphans fx ↔ w.parentGone ∧ w.state ≠ .zombie ∧ w.FindsMembers e := by
  constructor
  · rintro hz
    cases hm with
    | @ticked now group liveness r hp hlive ht =>
      rw [publish_finds_iff, Monitor.tick_zombie_iff ht] at hz
      obtain ⟨⟨n, rfl⟩, -, hne⟩ := hz
      obtain ⟨hg, m, ms, rfl⟩ := liveness_parentGone hlive
      exact ⟨hg, hne, hp, now, m, ms, rfl⟩
    | reset =>
      obtain ⟨d, hd, hz⟩ := publish_finds_iff.mp hz
      rw [Monitor.reset_target hd] at hz
      cases hz
    | unreaped =>
      obtain ⟨d, hd, hz⟩ := publish_finds_iff.mp hz
      rw [Monitor.abandon_target hd] at hz
      cases hz
    | _ =>
      obtain ⟨time, d, hd, -⟩ := hz
      simp at hd
  · rintro ⟨hg, hne, hp, now, m, ms, rfl⟩
    have hterm := hc.not_terminal (by rw [hp]; rfl)
    cases hm with
    | unheard hl => simp [listens, hp] at hl
    | blind _ hlive =>
      rw [liveness_members hg] at hlive
      cases hlive
    | ticked _ hlive ht =>
      rw [liveness_members hg] at hlive
      cases hlive
      exact publish_finds_iff.mpr ((Monitor.tick_zombie_iff ht).mpr ⟨⟨_, rfl⟩, hterm, hne⟩)

theorem move_sends_iff (hm : Move s w e w' fx) : SendsSignal fx ↔ w.Strikes s e := by
  constructor
  · rintro ⟨group, signal, hs⟩
    cases hm with
    | sent hp ht => exact ⟨_, _, _, _, _, _, _, _, hp, rfl, ht⟩
    | ticked | reset | unreaped => simp [publish_eq] at hs
    | _ => simp at hs
  · rintro ⟨mode, stage, now, group, escalated, pgid, signal, next, hp, rfl, ht⟩
    cases hm with
    | unheard hl => simp [listens, hp, WatchPhase.isReaping] at hl
    | sent => exact ⟨_, _, List.mem_singleton.mpr rfl⟩
    | paused hp' ht' | found hp' ht' | reaped hp' ht' | unreaped hp' ht' =>
      rw [hp] at hp'
      cases hp'
      rw [ht] at ht'
      cases ht'

end Watch

namespace Watched

abbrev WatchedStep := Step Watched WatchedEvent (List WatchEffect)

def WaitFails (t : WatchedStep) : Prop := t.event = .waited .failed ∧ t.before.waitOver = false

def TakesExit (t : WatchedStep) : Prop :=
  t.event = .take ∧ t.before.watch.phase = .serving ∧ ∃ code, t.before.queue.head? = some (.exited code)

/-- The wait failed, and afterwards the watch took an exit from the queue. While the process lives there is
no other exit to take than the one that the failure reported. -/
def Misled (ts : List WatchedStep) : Prop :=
  ∃ before failure between taking after, ts = before ++ failure :: (between ++ taking :: after) ∧
    WaitFails failure ∧ TakesExit taking

structure Accounted (ts : List WatchedStep) (w : Watched) : Prop where
  queued : ∀ n ∈ w.queue, n.allowsSignals → (∃ code, n = .exited code) ∧ ∃ v ∈ ts, WaitFails v
  served : w.watch.Spares ∨ Misled ts

def FindsMembers (t : WatchedStep) : Prop :=
  ∃ e, t.event = .direct e ∧ t.before.watch.FindsMembers e

def Strikes (s : Settings) (t : WatchedStep) : Prop :=
  ∃ e, t.event = .direct e ∧ t.before.watch.Strikes s e

variable {s : Settings} {id : ProcessId} {now : Nat} {w : Watched} {t : WatchedStep}
  {ts : List WatchedStep}

theorem Misled.snoc (h : Misled ts) : Misled (ts ++ [t]) := by
  obtain ⟨before, failure, between, taking, after, rfl, hf, ht⟩ := h
  exact ⟨before, failure, between, taking, after ++ [t], by simp, hf, ht⟩

theorem misled_of_takes (hv : v ∈ ts) (hf : WaitFails v) (ht : TakesExit t) : Misled (ts ++ [t]) := by
  obtain ⟨before, between, rfl⟩ := List.append_of_mem hv
  exact ⟨before, v, between, t, [], by simp, hf, ht⟩

-- ---------------------------------------------------------------------------
-- One step of a watched process
-- ---------------------------------------------------------------------------

theorem direct_allowsSignals {e : WatchEvent} (hd : e.isDirect)
    (hcmd : ∀ immediate, e ≠ .shutdown immediate) : e.allowsSignals = false := by
  cases e with
  | shutdown immediate => exact absurd rfl (hcmd immediate)
  | line | reading | sampleFailed | exited => cases hd
  | tick | reset | commandsEnded | turn | drained => rfl

/-- While the process lives and is not found gone, only a wait that fails brings news of its end. -/
theorem brings_allowsSignals (ha : w.isAlive)
    (hlook : ∀ now, e = .look now (.error .gone) → ¬ w.isAlive) (hb : Brings w e n)
    (hn : n.allowsSignals) : e = .waited .failed ∧ w.waitOver = false ∧ n = .exited none := by
  cases hb with
  | line | reading | unmetered => cases hn
  | lost => exact absurd ha (hlook _ rfl)
  | collected he => simp [isAlive, he] at ha
  | failed ho => exact ⟨rfl, ho, rfl⟩

theorem step_queued (ht : t.Of (step s)) (ha : t.before.isAlive)
    (hlook : ∀ now, t.event = .look now (.error .gone) → ¬ t.before.isAlive)
    (hacc : Accounted ts t.before) :
    ∀ n ∈ t.after.queue, n.allowsSignals →
      (∃ code, n = .exited code) ∧ ∃ v ∈ ts ++ [t], WaitFails v := by
  intro n hn hal
  rcases move_brings (step_move ht) n hn with hn | hn
  · obtain ⟨hexit, v, hv, hf⟩ := hacc.queued n hn hal
    exact ⟨hexit, v, List.mem_append_left _ hv, hf⟩
  · obtain ⟨he, hover, rfl⟩ := brings_allowsSignals ha hlook hn hal
    exact ⟨⟨none, rfl⟩, t, List.mem_append_right _ (List.mem_singleton.mpr rfl), he, hover⟩

/-- A watch that spares the process goes on doing so, or takes the exit that a failed wait reported. -/
theorem step_served (ht : t.Of (step s)) (ho : s.action.mode = .observe)
    (hcmd : ∀ immediate, t.event ≠ .direct (.shutdown immediate)) (hacc : Accounted ts t.before)
    (hs : t.before.watch.Spares) : t.after.watch.Spares ∨ Misled (ts ++ [t]) := by
  rcases move_watch (step_move ht) with ⟨heq, -⟩ | ⟨n, hoffers, hm⟩
  · exact .inl (heq ▸ hs)
  · by_cases hal : t.before.watch.phase = .serving ∧ n.allowsSignals
    · obtain ⟨hserving, hal⟩ := hal
      cases hoffers with
      | queued he hq =>
        obtain ⟨⟨code, rfl⟩, u, hu, hf⟩ := hacc.queued n (hq ▸ List.mem_cons_self) hal
        exact .inr (misled_of_takes hu hf ⟨he, hserving, code, by simp [hq]⟩)
      | direct he hd =>
        have hcalm := direct_allowsSignals hd fun i hi => hcmd i (hi ▸ he)
        rw [hcalm] at hal
        cases hal
    · refine .inl (Watch.move_spares hm ho hs fun hserving _ => ?_)
      exact Bool.eq_false_iff.mpr fun h => hal ⟨hserving, h⟩

theorem path_accounted (hp : Path (step s) (start s id now) ts w) (ho : s.action.mode = .observe)
    (hcmd : ∀ u ∈ ts, ∀ immediate, u.event ≠ .direct (.shutdown immediate))
    (hlook : ∀ u ∈ ts, ∀ now, u.event = .look now (.error .gone) → ¬ u.before.isAlive)
    (ha : w.isAlive) : Accounted ts w := by
  induction hp with
  | nil => exact ⟨by simp [start], .inl ⟨rfl, Watch.start_not_reaping⟩⟩
  | @snoc ts t _ ht ih =>
    -- the process lives at the end, so it has lived at every step before
    have hbefore : t.before.isAlive := move_alive (step_move ht) ha
    have hacc := ih (fun u hu => hcmd u (List.mem_append_left _ hu))
      (fun u hu => hlook u (List.mem_append_left _ hu)) hbefore
    have hlast : t ∈ ts ++ [t] := List.mem_append_right _ (List.mem_singleton.mpr rfl)
    refine ⟨step_queued ht hbefore (hlook t hlast) hacc, ?_⟩
    rcases hacc.served with hs | hm
    · exact step_served ht ho (hcmd t hlast) hacc hs
    · exact .inr hm.snoc

theorem step_finds_iff (ht : t.Of (step s)) (hc : t.before.watch.Coherent)
    (hq : ∀ n ∈ t.before.queue, n.isDirect = false) :
    Watch.FindsOrphans t.output ↔
      t.before.watch.parentGone ∧ t.before.watch.state ≠ .zombie ∧ FindsMembers t := by
  have hm := step_move ht
  constructor
  · intro hz
    rcases move_watch hm with ⟨-, hnone⟩ | ⟨n, hoffers, hv⟩
    · obtain ⟨time, d, hd, -⟩ := hz
      rw [hnone] at hd
      cases hd
    · obtain ⟨hg, hne, hfinds⟩ := (Watch.move_finds_iff hv hc).mp hz
      refine ⟨hg, hne, n, ?_, hfinds⟩
      cases hoffers with
      | queued _ hqueue =>
        obtain ⟨-, now, m, ms, rfl⟩ := hfinds
        cases hq _ (hqueue ▸ List.mem_cons_self)
      | direct he => exact he
  · rintro ⟨hg, hne, n, he, hfinds⟩
    obtain ⟨-, now, m, ms, rfl⟩ := id hfinds
    rw [he] at hm
    exact (Watch.move_finds_iff (move_direct hm rfl) hc).mpr ⟨hg, hne, hfinds⟩

theorem step_sends_iff (ht : t.Of (step s)) : Watch.SendsSignal t.output ↔ Strikes s t := by
  have hm := step_move ht
  constructor
  · intro hs
    rcases move_watch hm with ⟨-, hnone⟩ | ⟨n, hoffers, hv⟩
    · obtain ⟨group, signal, hs⟩ := hs
      rw [hnone] at hs
      cases hs
    · have hstrikes := (Watch.move_sends_iff hv).mp hs
      refine ⟨n, ?_, hstrikes⟩
      cases hoffers with
      | queued _ _ hp =>
        obtain ⟨_, _, _, _, _, _, _, _, hreap, -⟩ := hstrikes
        simp [hreap] at hp
      | direct he => exact he
  · rintro ⟨n, he, hstrikes⟩
    obtain ⟨_, _, _, _, _, _, _, _, -, rfl, -⟩ := id hstrikes
    rw [he] at hm
    exact (Watch.move_sends_iff (move_direct hm rfl)).mpr hstrikes

theorem parentGone_of_takes (ht : t.Of (step s)) (htakes : TakesExit t) :
    t.after.watch.parentGone := by
  obtain ⟨w, e, fx, w'⟩ := t
  have hm : Move s w e w' fx := step_move ht
  obtain ⟨rfl, (hp : w.watch.phase = .serving), code, (hhead : w.queue.head? = _)⟩ := htakes
  cases hm with
  | idle hempty => simp [hempty hp] at hhead
  | took hq _ hv =>
    rw [hq] at hhead
    cases hhead
    cases hv with
    | unheard hl => simp [Watch.listens, hp] at hl
    | exited => rfl
    | collected hd =>
      rw [hp] at hd
      cases hd

theorem parentGone_of_misled (h : steps (step s) w events = pre ++ t :: post) (hm : Misled pre) :
    t.before.watch.parentGone := by
  obtain ⟨before, failure, between, taking, after, rfl, -, htakes⟩ := hm
  have hsplit : steps (step s) w events =
      (before ++ failure :: between) ++ taking :: (after ++ t :: post) := by simpa using h
  obtain ⟨-, htaking, events', hrest⟩ := steps_split hsplit
  obtain ⟨hp, -, -⟩ := steps_split hrest
  exact path_parentGone hp (parentGone_of_takes htaking htakes)

/-- A watch that only observes and is not told to shut down, whose meter finds the process gone only when
it is, is misled by nothing but a wait that failed. While the process lives, an orphaned group is
diagnosed exactly when the watch is misled so and a tick then finds members in the group, and signals are
sent exactly when it is misled so and the reap that follows comes to send one. -/
theorem misled_only_by_failed_wait (s : Settings) (id : ProcessId) (now : Nat)
    (events : List WatchedEvent) (ho : s.action.mode = .observe)
    (hcmd : ∀ immediate, .direct (.shutdown immediate) ∉ events)
    (hlook : ∀ u ∈ steps (step s) (start s id now) events, ∀ time,
      u.event = .look time (.error .gone) → ¬ u.before.isAlive)
    (hts : steps (step s) (start s id now) events = pre ++ t :: post) (ha : t.before.isAlive) :
    (Watch.FindsOrphans t.output ↔
      Misled pre ∧ t.before.watch.state ≠ .zombie ∧ FindsMembers t) ∧
    (Watch.SendsSignal t.output ↔ Misled pre ∧ Strikes s t) := by
  obtain ⟨hp, ht, -⟩ := steps_split hts
  have hcmd' : ∀ u ∈ pre, ∀ immediate, u.event ≠ .direct (.shutdown immediate) := by
    intro u hu immediate he
    exact hcmd immediate (he ▸ event_mem_of_mem_steps (hts ▸ List.mem_append_left _ hu))
  have hlook' : ∀ u ∈ pre, ∀ time, u.event = .look time (.error .gone) → ¬ u.before.isAlive :=
    fun u hu => hlook u (hts ▸ List.mem_append_left _ hu)
  have hmisled : ¬ t.before.watch.Spares → Misled pre :=
    (path_accounted hp ho hcmd' hlook' ha).served.resolve_left
  constructor
  · rw [step_finds_iff ht (path_coherent hp) (path_queue hp)]
    constructor
    · rintro ⟨hg, hne, hfinds⟩
      exact ⟨hmisled fun hs => by simp [hs.1] at hg, hne, hfinds⟩
    · rintro ⟨hm, hne, hfinds⟩
      exact ⟨parentGone_of_misled hts hm, hne, hfinds⟩
  · rw [step_sends_iff ht]
    constructor
    · intro hs
      refine ⟨hmisled fun hspares => ?_, hs⟩
      obtain ⟨n, -, mode, stage, _, _, _, _, _, _, hreap, -⟩ := hs
      exact hspares.2 (by rw [hreap]; rfl)
    · exact fun h => h.2

def observing : Settings := { action := { mode := .observe } }

def failingEvents : List WatchedEvent :=
  [.waited .failed, .take, .direct (.tick 1000 (.ok [100])), .direct (.turn 1000 (.ok [100]) false)]

def failingWait : List WatchedStep := steps (step observing) (start observing ⟨100, 100⟩ 0) failingEvents

theorem failingWait_looks : ∀ u ∈ failingWait, ∀ time,
    u.event = .look time (.error .gone) → ¬ u.before.isAlive := by
  intro u hu time he
  have hmem := event_mem_of_mem_steps hu
  simp [he, failingEvents] at hmem

theorem misled_by_failingWait : ∃ pre t post, failingWait = pre ++ t :: post ∧ t.before.isAlive ∧
    Misled pre ∧ Watch.FindsOrphans t.output := by
  have hts : failingWait =
    failingWait.take 2 ++ failingWait.get ⟨2, by decide⟩ :: failingWait.drop 3 := rfl
  have hm : Misled (failingWait.take 2) :=
    ⟨[], _, [], _, [], rfl, ⟨rfl, rfl⟩, rfl, rfl, none, rfl⟩
  have hfinds : FindsMembers (failingWait.get ⟨2, by decide⟩) := ⟨_, rfl, rfl, 1000, 100, [], rfl⟩
  have hiff := misled_only_by_failed_wait observing ⟨100, 100⟩ 0 failingEvents rfl
    (by simp [failingEvents]) failingWait_looks hts rfl
  exact ⟨_, _, _, hts, rfl, hm, hiff.1.mpr ⟨hm, by decide, hfinds⟩⟩

/-- A watch that only observes, with no command to shut down and no look that finds the process gone, takes
a live process for one that left orphans behind, and signals its group. -/
theorem live_process_signalled :
    observing.action.mode = .observe ∧
    (∀ immediate, .direct (.shutdown immediate) ∉ failingEvents) ∧
    (∀ u ∈ failingWait, ∀ time, u.event = .look time (.error .gone) → ¬ u.before.isAlive) ∧
    (∃ t ∈ failingWait, t.before.isAlive ∧ Watch.FindsOrphans t.output) ∧
    ∃ t ∈ failingWait, t.before.isAlive ∧ Watch.SendsSignal t.output := by
  refine ⟨rfl, by simp [failingEvents], failingWait_looks, ?_, ?_⟩
  · refine ⟨failingWait.get ⟨2, by decide⟩, List.get_mem _ _, rfl, ?_⟩
    exact ⟨1000, ⟨⟨100, 100⟩, .healthy, .zombie, Assessor.orphanText ⟨100, 100⟩ 1⟩, by decide, rfl⟩
  · refine ⟨failingWait.get ⟨3, by decide⟩, List.get_mem _ _, rfl, ?_⟩
    exact ⟨100, .terminate, by decide⟩

end Watched

end Vigil
