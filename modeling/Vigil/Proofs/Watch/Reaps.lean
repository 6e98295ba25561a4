import Vigil.Proofs.Reap.Turns
import Vigil.Proofs.Watch.Move

/-!
# Signals belong to reaps

A watch signals only its own group, and only within a reap. `Watch.reaps_in_order` says of every run which
steps open a reap, that nothing else is served until it has ended, and that a watch which only observes
spares a process that has not been seen to be gone.
-/

namespace Vigil

def WatchEvent.allowsSignals : WatchEvent → Bool
  | .shutdown _ | .exited _ | .sampleFailed .processGone => true
  | _ => false

namespace Watch

variable {s : Settings} {w w' : Watch} {e : WatchEvent} {fx : List WatchEffect}

-- ---------------------------------------------------------------------------
-- One step
-- ---------------------------------------------------------------------------

theorem move_signals (hm : Move s w e w' fx) (hs : .signalled group sig ∈ fx) :
    group = w.id.pgid ∧ w.phase.isReaping := by
  cases hm with
  | sent hp ht =>
    simp only [List.mem_singleton, WatchEffect.signalled.injEq] at hs
    obtain ⟨rfl, rfl⟩ := hs
    exact ⟨Reap.turn_target ht, by rw [hp]; rfl⟩
  | ticked | reset | unreaped => simp [publish_eq] at hs
  | _ => simp at hs

/-- A reap in progress takes its turns, none of which begins it anew, and hears of nothing else. -/
theorem move_in_reap (hm : Move s w e w' fx) (hp : w.phase.isReaping) (hl : w.listens e) :
    (∃ now group escalated, e = .turn now group escalated) ∧
      ∀ mode, w'.phase ≠ .reaping mode .opening := by
  cases hm with
  | unheard hn => simp [hn] at hl
  | sent _ ht | paused _ ht =>
    have hne := Reap.ne_opening_of_turn ht rfl
    exact ⟨⟨_, _, _, rfl⟩, fun mode hopening => hne (WatchPhase.reaping.inj hopening).2⟩
  | found | reaped | unreaped => exact ⟨⟨_, _, _, rfl⟩, fun _ => settle_phase_ne _⟩
  | line hq | reading hq | lost hq | unmetered hq | exited hq | blind hq | ticked hq | reset hq
  | shutdown hq | commandsEnded hq | collected hq | drained hq =>
    rw [hq] at hp
    cases hp

theorem move_shutdown (hm : Move s w (.shutdown immediate) w' fx)
    (hl : w.listens (.shutdown immediate)) :
    ¬ w.phase.isReaping ∧ ∃ mode, w'.phase = .reaping mode .opening := by
  cases hm with
  | unheard hn => simp [hn] at hl
  | shutdown hp =>
    rw [hp]
    exact ⟨by decide, _, rfl⟩

theorem move_shutdown_output (hm : Move s w (.shutdown immediate) w' fx) : fx = [] := by
  cases hm <;> rfl

theorem move_output (hm : Move s w e w' fx) : fx.length ≤ 1 := by
  cases hm with
  | ticked | reset | unreaped => exact publish_length
  | _ => simp

theorem move_diagnosis (hm : Move s w e w' fx) (hd : .diagnosed time d ∈ fx)
    (hc : callsForReap s.action.mode d.target) :
    ¬ w.phase.isReaping ∧ w'.phase = .reaping .graceful .opening := by
  cases hm with
  | ticked hp =>
    obtain ⟨-, hd⟩ := mem_publish.mp hd
    rw [hd, respond_calls hc, hp]
    exact ⟨by decide, rfl⟩
  | reset =>
    obtain ⟨-, hd⟩ := mem_publish.mp hd
    rw [Monitor.reset_target hd] at hc
    cases hc
  | unreaped =>
    obtain ⟨-, hd⟩ := mem_publish.mp hd
    rw [Monitor.abandon_target hd] at hc
    cases hc
  | _ => simp at hd

/-- Only a command or a diagnosis that calls for it leads into a reap. -/
theorem move_enters (hm : Move s w e w' fx) (hb : ¬ w.phase.isReaping) (ha : w'.phase.isReaping) :
    (∃ mode, w'.phase = .reaping mode .opening) ∧
      ((w.listens e ∧ ∃ immediate, e = .shutdown immediate) ∨
        ∃ time d, .diagnosed time d ∈ fx ∧ callsForReap s.action.mode d.target) := by
  cases hm with
  | shutdown hp hopen => exact ⟨⟨_, rfl⟩, .inl ⟨by simp [listens, hp, hopen], _, rfl⟩⟩
  | @ticked now group liveness r =>
    rcases respond_cases s (w.publish now r).1 r.2 with hr | ⟨d, hd, hc, hr⟩
    · rw [hr, settle_not_reaping] at ha
      cases ha
    · rw [hr]
      exact ⟨⟨_, rfl⟩, .inr ⟨now, d, by simp [publish_eq, hd], hc⟩⟩
  | reset =>
    rw [settle_not_reaping] at ha
    cases ha
  | unheard | line | reading | lost | unmetered | exited | blind | commandsEnded => exact absurd ha hb
  | sent hp | paused hp | found hp | reaped hp | unreaped hp =>
    rw [hp] at hb
    exact absurd rfl hb
  | collected | drained => cases ha

def Spares (w : Watch) : Prop := w.parentGone = false ∧ ¬ w.phase.isReaping

theorem settle_spares (h : w.parentGone = false) : w.settle.Spares :=
  ⟨by simpa using h, by simp [settle_not_reaping]⟩

theorem move_spares (hm : Move s w e w' fx) (ho : s.action.mode = .observe) (hw : w.Spares)
    (he : w.phase = .serving → w.listens e → e.allowsSignals = false) : w'.Spares := by
  obtain ⟨hg, hp⟩ := hw
  cases hm with
  | lost hq => cases he hq (by simp [listens, hq])
  | exited hq => cases he hq (by simp [listens, hq])
  | shutdown hq hopen => cases he hq (by simp [listens, hq, hopen])
  | @ticked now group liveness r hq hlive ht =>
    -- as long as the process is not held to be gone, the group is not even looked at
    have hrunning : liveness = .running := by
      simpa [liveness?, hg] using hlive.symm
    subst hrunning
    have hcalm : ∀ d ∈ r.2, ¬ callsForReap s.action.mode d.target := by
      intro d hd
      obtain ⟨m, out⟩ := r
      obtain rfl : out = some d := hd
      rw [callsForReap_iff, ho]
      simpa using (Monitor.tick_running_target ht).2
    rw [respond_settles hcalm]
    exact settle_spares (by simpa using hg)
  | reset => exact settle_spares (by simpa using hg)
  | unheard | line | reading | unmetered | blind | commandsEnded => exact ⟨hg, hp⟩
  | sent hq | paused hq | found hq | reaped hq | unreaped hq =>
    rw [hq] at hp
    exact absurd rfl hp
  | collected | drained => exact ⟨hg, by simp [WatchPhase.isReaping]⟩

-- ---------------------------------------------------------------------------
-- Whole runs
-- ---------------------------------------------------------------------------

abbrev WatchStep := Step Watch WatchEvent (List WatchEffect)

def Served (t : WatchStep) : Prop := t.before.listens t.event

def InReap (t : WatchStep) : Prop := t.before.phase.isReaping

def OpensReap (t : WatchStep) : Prop := ¬ InReap t ∧ ∃ mode, t.after.phase = .reaping mode .opening

def EndsReap (t : WatchStep) : Prop := InReap t ∧ ¬ t.after.phase.isReaping

def SendsSignal (fx : List WatchEffect) : Prop := ∃ group signal, .signalled group signal ∈ fx

inductive CallsReap (s : Settings) (t : WatchStep) : Prop
  | commanded {immediate} : Served t → t.event = .shutdown immediate → CallsReap s t
  | orphaned {time d} : .diagnosed time d ∈ t.output → d.target = .zombie → CallsReap s t
  | alarmed {time d} : s.action.mode = .kill → .diagnosed time d ∈ t.output →
      d.target = .stuck ∨ d.target = .runaway ∨ d.target = .leaking → CallsReap s t

variable {id : ProcessId} {now : Nat} {t : WatchStep} {ts : List WatchStep}

theorem callsReap_iff :
    CallsReap s t ↔ (Served t ∧ ∃ immediate, t.event = .shutdown immediate) ∨
      ∃ time d, .diagnosed time d ∈ t.output ∧ callsForReap s.action.mode d.target := by
  constructor
  · intro h
    cases h with
    | commanded hs he => exact .inl ⟨hs, _, he⟩
    | orphaned hd hz => exact .inr ⟨_, _, hd, (callsForReap_iff _ _).mpr (.inl hz)⟩
    | alarmed hk hd ha => exact .inr ⟨_, _, hd, (callsForReap_iff _ _).mpr (.inr ⟨hk, ha⟩)⟩
  · rintro (⟨hs, immediate, he⟩ | ⟨time, d, hd, hc⟩)
    · exact .commanded hs he
    · rcases (callsForReap_iff _ _).mp hc with hz | ⟨hk, ha⟩
      · exact .orphaned hd hz
      · exact .alarmed hk hd ha

/-- A reap opens at a call for it, and at nothing else. -/
theorem calls_iff_opens (ht : t.Of (step s)) : CallsReap s t ↔ OpensReap t := by
  have hm := step_move ht
  rw [callsReap_iff]
  constructor
  · rintro (⟨hs, immediate, he⟩ | ⟨time, d, hd, hcall⟩)
    · unfold Served at hs
      rw [he] at hm hs
      exact move_shutdown hm hs
    · obtain ⟨hb, ha⟩ := move_diagnosis hm hd hcall
      exact ⟨hb, _, ha⟩
  · rintro ⟨hb, mode, ha⟩
    exact (move_enters hm hb (by rw [ha]; rfl)).2

theorem start_not_reaping : ¬ (start s id now).phase.isReaping := by
  simp [start, WatchPhase.isReaping]

theorem path_id (hp : Path (step s) (start s id now) ts w) : w.id = id := by
  refine hp.preserves (P := fun v => v.id = id) rfl ?_
  intro t _ ht hid
  exact (move_id (step_move ht)).trans hid

theorem path_in_reap (hp : Path (step s) (start s id now) ts w) (hw : w.phase.isReaping) :
    ∃ before call reap, ts = before ++ call :: reap ∧ CallsReap s call ∧ OpensReap call ∧
      ∀ u ∈ reap, InReap u := by
  obtain ⟨before, call, reap, rfl, hcall, hb, ha, hsince⟩ :=
    hp.last_entry (P := fun v => v.phase.isReaping) start_not_reaping hw
  have hopens : OpensReap call := ⟨hb, (move_enters (step_move hcall) hb ha).1⟩
  exact ⟨before, call, reap, rfl, (calls_iff_opens hcall).mpr hopens, hopens, hsince⟩

theorem path_spares (hp : Path (step s) (start s id now) ts w) (ho : s.action.mode = .observe)
    (hts : ∀ u ∈ ts, Served u → u.event.allowsSignals = false) : w.Spares := by
  refine hp.preserves ⟨rfl, start_not_reaping⟩ ?_
  intro u hu hstep hspares
  exact move_spares (step_move hstep) ho hspares fun _ => hts u hu

structure ReapsInOrder (s : Settings) (id : ProcessId) (ts : List WatchStep) : Prop where
  /-- A signal goes to the watch's own group, and the reap it belongs to began with a call for it. -/
  caused : ∀ pre t post group signal, ts = pre ++ t :: post → .signalled group signal ∈ t.output →
    group = id.pgid ∧ ∃ before call reap, pre = before ++ call :: reap ∧ CallsReap s call ∧
      OpensReap call ∧ ∀ u ∈ reap ++ [t], InReap u
  opened : ∀ t ∈ ts, CallsReap s t ↔ OpensReap t
  single : ∀ t ∈ ts, t.output.length ≤ 1 ∧
    ∀ immediate, t.event = .shutdown immediate → t.output = []
  alone : ∀ t ∈ ts, InReap t → Served t →
    (∃ now group escalated, t.event = .turn now group escalated) ∧
      ∀ mode, t.after.phase ≠ .reaping mode .opening
  /-- Whatever else is served after a reap has begun finds it ended. -/
  finished : ∀ pre call mid t post, ts = pre ++ call :: (mid ++ t :: post) → OpensReap call →
    Served t → (∀ now group escalated, t.event ≠ .turn now group escalated) →
    ∃ reap last rest, mid = reap ++ last :: rest ∧ (∀ u ∈ reap, InReap u) ∧ EndsReap last
  spared : s.action.mode = .observe → ∀ pre t post, ts = pre ++ t :: post →
    (∀ u ∈ pre, Served u → u.event.allowsSignals = false) → ¬ SendsSignal t.output

/-- After any events in any order, with any answers to the looks at the group, a watch has signalled
within its reaps only and reaped only when called for. -/
theorem reaps_in_order (s : Settings) (id : ProcessId) (now : Nat) (events : List WatchEvent) :
    ReapsInOrder s id (steps (step s) (start s id now) events) where
  caused := by
    intro pre t post group signal hts hsig
    obtain ⟨hp, ht, -⟩ := steps_split hts
    obtain ⟨rfl, hin⟩ := move_signals (step_move ht) hsig
    obtain ⟨before, call, reap, rfl, hcalls, hopens, hsince⟩ := path_in_reap hp hin
    refine ⟨by rw [path_id hp], before, call, reap, rfl, hcalls, hopens, ?_⟩
    intro u hu
    rcases List.mem_append.mp hu with hu | hu
    · exact hsince u hu
    · obtain rfl := List.mem_singleton.mp hu
      exact hin
  opened := by
    intro t hmem
    have ht := of_mem_steps hmem
    exact calls_iff_opens ht
  single := by
    intro t hmem
    have ht := of_mem_steps hmem
    have hm := step_move ht
    refine ⟨move_output hm, ?_⟩
    intro immediate he
    rw [he] at hm
    exact move_shutdown_output hm
  alone := by
    intro t hmem hin hserved
    have ht := of_mem_steps hmem
    exact move_in_reap (step_move ht) hin hserved
  finished := by
    intro pre call mid t post hts hopens hserved hother
    obtain ⟨-, -, events', hrest⟩ := steps_split hts
    obtain ⟨hp, ht, -⟩ := steps_split hrest
    obtain ⟨-, mode, hafter⟩ := hopens
    have hbegun : call.after.phase.isReaping := by rw [hafter]; rfl
    rcases hp.stays_or_leaves (P := fun v => v.phase.isReaping) hbegun with
      ⟨hin, -⟩ | ⟨reap, last, rest, rfl, -, hlast, hleft, hreap⟩
    · -- a reap that is still in progress is served nothing but a turn
      obtain ⟨⟨now, group, escalated, hturn⟩, -⟩ := move_in_reap (step_move ht) hin hserved
      exact absurd hturn (hother now group escalated)
    · exact ⟨reap, last, rest, rfl, hreap, hlast, hleft⟩
  spared := by
    rintro ho pre t post hts hquiet ⟨group, signal, hsig⟩
    obtain ⟨hp, ht, -⟩ := steps_split hts
    exact (path_spares hp ho hquiet).2 (move_signals (step_move ht) hsig).2

end Watch

end Vigil
