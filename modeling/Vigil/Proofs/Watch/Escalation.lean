import Vigil.Proofs.Reap.Contract
import Vigil.Proofs.Watch.Sessions

/-!
# A second interrupt reaches a reap

While a watch reaps it hears no commands, but each turn of the reap reads whether the grace period is to
be cut short. `Sitting.second_interrupt_cuts_grace`: that comes about by a second interrupt soon after the
one before it and by nothing else, lasts, and leaves a reap nothing but hard signals. A turn reads the
flag and acts on it at one instant.
-/

namespace Vigil

-- ---------------------------------------------------------------------------
-- One step of a watch
-- ---------------------------------------------------------------------------

theorem Reap.turn_escalated (h : Reap.turn s pgid mode stage now group true = .send target signal next) :
    signal = .kill := by
  have htook := Reap.took s pgid mode stage ⟨now, group, true⟩
  rw [h] at htook
  cases htook with
  | asked _ _ _ hflag => cases hflag
  | struck | pressed | again => rfl

theorem Reap.turn_grace_nobody (h : FindsNobody group) :
    turn s pgid mode (.grace deadline) now group escalated = .done (.terminated false 1) := by
  simp [turn, liveMembers_eq_nil, h]

theorem Reap.turn_grace_struck (h : ¬ FindsNobody group) :
    turn s pgid mode (.grace deadline) now group true =
      .send pgid .kill (.kill 1 (now + s.killTimeoutMs)) := by
  simp [turn, liveMembers_eq_nil, h, strike]

namespace Watch

variable {s : Settings} {w w' : Watch} {e : WatchEvent} {fx : List WatchEffect}

open Session (diagnosesOf signalsOf)

/-- Signals come from turns of a reap, one at a time. -/
theorem move_signalsOf (hm : Move s w e w' fx) :
    signalsOf fx = [] ∨ ∃ mode stage now group escalated target signal next,
      w.phase = .reaping mode stage ∧ e = .turn now group escalated ∧
      Reap.turn s.reaping w.id.pgid mode stage now group escalated = .send target signal next ∧
      signalsOf fx = [signal] := by
  cases hm with
  | sent hp ht => exact .inr ⟨_, _, _, _, _, _, _, _, hp, rfl, ht, rfl⟩
  | ticked | reset | unreaped => exact .inl (by simp [publish_eq])
  | _ => exact .inl rfl

theorem diagnosesOf_of_reaping (hm : Move s w e w' fx) (hp : w'.phase = .reaping mode stage)
    (hstage : stage ≠ .opening) : diagnosesOf fx = [] := by
  cases hm with
  | @ticked now group liveness r =>
    rcases respond_cases s (w.publish now r).1 r.2 with hr | ⟨d, -, -, hr⟩
    · exact absurd (hr ▸ hp) (settle_phase_ne _)
    · rw [hr] at hp
      exact absurd (WatchPhase.reaping.inj hp).2.symm hstage
  | reset | unreaped => exact absurd hp (settle_phase_ne _)
  | _ => rfl

theorem move_of_reaping (hm : Move s w e w' fx) (hp : w.phase.isReaping)
    (he : ∀ now group escalated, e ≠ .turn now group escalated) : w' = w := by
  cases hm with
  | unheard | unmetered | blind => rfl
  | line hq | reading hq | lost hq | exited hq | ticked hq | reset hq | shutdown hq | commandsEnded hq
  | collected hq | drained hq =>
    rw [hq] at hp
    cases hp
  | sent | paused | found | reaped | unreaped => exact absurd rfl (he _ _ _)

theorem move_grace_nobody (hm : Move s w (.turn now group escalated) w' fx)
    (hp : w.phase = .reaping mode (.grace deadline)) (hnobody : Reap.FindsNobody group) :
    w'.phase.isReaping = false ∧ signalsOf fx = [] := by
  cases hm with
  | unheard hl => simp [listens, hp, WatchPhase.isReaping] at hl
  | sent hq ht | paused hq ht | found hq ht | unreaped hq ht =>
    obtain ⟨rfl, rfl⟩ := WatchPhase.reaping.inj (hp.symm.trans hq)
    rw [Reap.turn_grace_nobody hnobody] at ht
    cases ht
  | reaped => exact ⟨settle_not_reaping _, rfl⟩

theorem move_grace_struck (hm : Move s w (.turn now group true) w' fx)
    (hp : w.phase = .reaping mode (.grace deadline)) (hsome : ¬ Reap.FindsNobody group) :
    w'.phase = .reaping mode (.kill 1 (now + s.reaping.killTimeoutMs)) ∧ signalsOf fx = [.kill] := by
  cases hm with
  | unheard hl => simp [listens, hp, WatchPhase.isReaping] at hl
  | sent hq ht =>
    obtain ⟨rfl, rfl⟩ := WatchPhase.reaping.inj (hp.symm.trans hq)
    rw [Reap.turn_grace_struck hsome] at ht
    cases ht
    exact ⟨rfl, rfl⟩
  | paused hq ht | found hq ht | reaped hq ht | unreaped hq ht =>
    obtain ⟨rfl, rfl⟩ := WatchPhase.reaping.inj (hp.symm.trans hq)
    rw [Reap.turn_grace_struck hsome] at ht
    cases ht

end Watch

-- ---------------------------------------------------------------------------
-- Pairs of interrupts
-- ---------------------------------------------------------------------------

namespace Session

def Paired (times : List Nat) : Prop :=
  ∃ before a b after, times = before ++ a :: b :: after ∧ b ≤ a + 3000

theorem paired_snoc {times : List Nat} :
    Paired (times ++ [b]) ↔ Paired times ∨ ∃ a ∈ times.getLast?, b ≤ a + 3000 := by
  constructor
  · rintro ⟨before, a, c, after, h, hle⟩
    rcases List.eq_nil_or_concat after with rfl | ⟨after, d, rfl⟩
    · obtain ⟨rfl, hc⟩ : times = before ++ [a] ∧ [b] = [c] :=
        List.append_inj' (by simpa using h) rfl
      obtain rfl := List.singleton_inj.mp hc
      exact .inr ⟨a, by simp, hle⟩
    · obtain ⟨rfl, -⟩ : times = before ++ a :: c :: after ∧ [b] = [d] :=
        List.append_inj' (by simpa using h) rfl
      exact .inl ⟨before, a, c, after, rfl, hle⟩
  · rintro (⟨before, a, c, after, rfl, hle⟩ | ⟨a, ha, hle⟩)
    · exact ⟨before, a, c, after ++ [b], by simp, hle⟩
    · obtain ⟨before, rfl⟩ := List.getLast?_eq_some_iff.mp ha
      exact ⟨before, a, b, [], by simp, hle⟩

-- ---------------------------------------------------------------------------
-- One step of a session
-- ---------------------------------------------------------------------------

variable {s : Settings} {n n' : Session} {e : SessionEvent}

def interrupt? (n : Session) : SessionEvent → Option Nat
  | .signal .interrupt time => if n.attendance.listening then some time else none
  | _ => none

theorem interrupt?_eq_none (h : ∀ sig time, e ≠ .signal sig time) : n.interrupt? e = none := by
  cases e with
  | signal sig time => exact absurd rfl (h sig time)
  | _ => rfl

@[simp] theorem receive_interrupts (a : Attendance) : a.receive.interrupts = a.interrupts := by
  unfold Attendance.receive
  split <;> rfl

theorem move_interrupts (hm : Move s n e n') :
    n'.attendance.interrupts.last = (n.interrupt? e).or n.attendance.interrupts.last := by
  cases hm with
  | @idle e hsig =>
    cases e with
    | signal sig time =>
      cases sig <;> simp [interrupt?, hsig _ _ rfl]
    | _ => rfl
  | @signalled sig now hl => cases sig <;> simp [interrupt?, hl, Interrupts.receive]
  | received => simp [interrupt?]
  | _ => rfl

theorem move_escalated_iff (hm : Move s n e n') :
    n'.escalated ↔ n.escalated ∨
      ∃ b ∈ n.interrupt? e, ∃ a ∈ n.attendance.interrupts.last, b ≤ a + 3000 := by
  cases hm with
  | @idle e hsig =>
    cases e with
    | signal sig time => cases sig <;> simp [interrupt?, hsig _ _ rfl]
    | _ => simp [interrupt?]
  | @signalled sig now hl =>
    cases sig with
    | terminate => simp [interrupt?, Interrupts.receive]
    | interrupt =>
      cases hlast : n.attendance.interrupts.last with
      | none => simp [interrupt?, hl, Interrupts.receive, hlast]
      | some a => simp [interrupt?, hl, Interrupts.receive, hlast, doubleTap, Nat.add_comm]
  | _ => simp [interrupt?, took]

theorem move_signals (hm : Move s n e n') :
    n'.signals = n.signals ∨ ∃ mode stage now group target signal next,
      Reap.turn s.reaping n.watch.id.pgid mode stage now group n.escalated = .send target signal next ∧
      n'.signals = n.signals ++ [signal] := by
  cases hm with
  | @fed e w fx hfeed _ hw =>
    rcases Watch.move_signalsOf (Watch.step_move hw) with hnone | ⟨_, _, _, _, _, _, _, _, -, rfl, -, -⟩
    · exact .inl (by simp [took, hnone])
    · cases hfeed
  | obeyed _ _ _ hw =>
    rcases Watch.move_signalsOf (Watch.step_move hw) with hnone | ⟨_, _, _, _, _, _, _, _, -, he, -, -⟩
    · exact .inl (by simp [took, hnone])
    · cases he
  | turned _ hw =>
    rcases Watch.move_signalsOf (Watch.step_move hw) with
      hnone | ⟨mode, stage, _, _, _, target, signal, next, -, he, ht, hfx⟩
    · exact .inl (by simp [took, hnone])
    · cases he
      exact .inr ⟨mode, stage, _, _, target, signal, next, ht, by simp [took, hfx]⟩
  | _ => exact .inl rfl

end Session

-- ---------------------------------------------------------------------------
-- One step of a sitting
-- ---------------------------------------------------------------------------

namespace Sitting

open Session (Paired paired_snoc)

variable {s : Settings} {g g' : Sitting} {e : SessionEvent}

theorem move_interrupts (hm : Move s g e g') :
    g'.attendance.interrupts.last = (g.interrupt? e).or g.attendance.interrupts.last := by
  cases hm with
  | moved hn => exact Session.move_interrupts hn
  | dead _ hsig => simp [Session.interrupt?_eq_none hsig]
  | _ => rfl

theorem move_escalated_iff (hm : Move s g e g') :
    g'.escalated ↔ g.escalated ∨
      ∃ b ∈ g.interrupt? e, ∃ a ∈ g.attendance.interrupts.last, b ≤ a + 3000 := by
  cases hm with
  | moved hn => exact Session.move_escalated_iff hn
  | dead _ hsig => simp [Session.interrupt?_eq_none hsig]
  | _ => simp [Session.interrupt?]

/-- Once the grace period is cut short, all that is sent to the group are hard signals. -/
theorem move_signals (hm : Move s g e g') (he : g.escalated) :
    ∃ sent, g'.signals = g.signals ++ sent ∧ .terminate ∉ sent := by
  cases hm with
  | moved hn =>
    rcases Session.move_signals hn with hsame | ⟨mode, stage, now, group, target, signal, next, ht, hsent⟩
    · exact ⟨[], by simp [hsame], by simp⟩
    · rw [he] at ht
      exact ⟨[signal], hsent, by simp [Reap.turn_escalated ht]⟩
  | _ => exact ⟨[], by simp, by simp⟩

/-- A broken watch was serving, and a reap that is past its opening goes on with all diagnoses sent. -/
structure Orderly (g : Sitting) : Prop where
  broken : g.broken → g.watch.phase = .serving
  sent : ∀ mode stage, g.watch.phase = .reaping mode stage → stage ≠ .opening → g.unsent = []

theorem start_orderly (s : Settings) (id : ProcessId) (now : Nat) : (start s id now).Orderly where
  broken := fun _ => rfl
  sent := fun _ _ _ _ => rfl

theorem move_orderly (hm : Move s g e g') (ho : g.Orderly) : g'.Orderly := by
  cases hm with
  | broke hp => exact ⟨fun _ => hp, ho.sent⟩
  | dead | deserted | collected => exact ⟨ho.broken, ho.sent⟩
  | @moved e n hn hlive =>
    cases hn with
    | idle | signalled | received | left | collected => exact ⟨ho.broken, ho.sent⟩
    | @sent d rest hu =>
      refine ⟨ho.broken, ?_⟩
      intro mode stage hp hstage
      rw [ho.sent mode stage hp hstage] at hu
      cases hu
    | fed _ _ hw | obeyed _ _ _ hw | turned _ hw =>
      refine ⟨?_, fun mode stage hp hstage => Watch.diagnosesOf_of_reaping (Watch.step_move hw) hp hstage⟩
      intro hb
      rcases hlive hb with he | ⟨sig, now, he⟩ <;> cases he

theorem move_of_reaping (hm : Move s g e g') (hp : g.watch.phase.isReaping)
    (he : ∀ now group, e ≠ .reapTurn now group) : g'.watch = g.watch := by
  cases hm with
  | broke | dead | deserted | collected => rfl
  | moved hn _ =>
    cases hn with
    | @fed e w fx hfeed _ hw =>
      refine Watch.move_of_reaping (Watch.step_move hw) hp ?_
      rintro now group escalated rfl
      cases hfeed
    | obeyed hq =>
      rw [hq] at hp
      cases hp
    | turned => exact absurd rfl (he _ _)
    | _ => rfl

theorem move_turn (hm : Move s g (.reapTurn now group) g') (ho : g.Orderly)
    (hp : g.watch.phase = .reaping mode (.grace deadline)) :
    ∃ w fx, Watch.Move s g.watch (.turn now group g.escalated) w fx ∧ g'.toSession = g.took w fx := by
  cases hm with
  | dead hb =>
    cases hp.symm.trans (ho.broken hb)
  | moved hn _ =>
    cases hn with
    | idle _ hturn => exact absurd (ho.sent _ _ hp (by simp)) (hturn _ _ rfl)
    | turned _ hw => exact ⟨_, _, Watch.step_move hw, rfl⟩

-- ---------------------------------------------------------------------------
-- Whole runs
-- ---------------------------------------------------------------------------

variable {id : ProcessId} {now : Nat} {t : SittingStep} {ts : List SittingStep}

def interrupts (ts : List SittingStep) : List Nat := ts.filterMap fun t => t.before.interrupt? t.event

def sent (t : SittingStep) : List Signal := t.after.signals.drop t.before.signals.length

theorem interrupts_snoc : interrupts (ts ++ [t]) = interrupts ts ++ (t.before.interrupt? t.event).toList := by
  cases h : t.before.interrupt? t.event <;> simp [interrupts, h]

theorem of_move (ht : t.Of (advance s)) : Move s t.before t.event t.after := by
  have hafter : t.before.step s t.event = t.after := (Prod.mk.inj (Except.ok.inj ht)).1
  rw [← hafter]
  exact step_move s t.before t.event

theorem path_interrupts (hp : Path (advance s) (start s id now) ts g) :
    g.attendance.interrupts.last = (interrupts ts).getLast? := by
  induction hp with
  | nil => rfl
  | @snoc ts t _ ht ih =>
    rw [move_interrupts (of_move ht), ih, interrupts_snoc]
    cases t.before.interrupt? t.event <;> simp

theorem path_escalated_iff (hp : Path (advance s) (start s id now) ts g) :
    g.escalated ↔ Paired (interrupts ts) := by
  induction hp with
  | nil => simp [start, Session.start, interrupts, Paired]
  | @snoc ts t hp ht ih =>
    rw [move_escalated_iff (of_move ht), ih, path_interrupts hp, interrupts_snoc]
    cases t.before.interrupt? t.event with
    | none => simp
    | some b => simp [paired_snoc]

theorem path_orderly (hp : Path (advance s) (start s id now) ts g) : g.Orderly :=
  hp.preserves (start_orderly s id now) fun _ _ ht ho => move_orderly (of_move ht) ho

/-- How interrupts and the grace periods of a run hang together. -/
structure CutsGraceShort (s : Settings) (ts : List SittingStep) : Prop where
  raised : ∀ pre t post, ts = pre ++ t :: post → (t.after.escalated ↔ Paired (interrupts (pre ++ [t])))
  kept : ∀ t ∈ ts, t.before.escalated → t.after.escalated
  firm : ∀ t ∈ ts, t.before.escalated → .terminate ∉ sent t
  /-- A grace period that is under way ends with its next poll. -/
  cut : ∀ pre t mid u post mode deadline now group, ts = pre ++ t :: (mid ++ u :: post) →
    t.before.escalated = false → t.after.escalated →
    t.before.watch.phase = .reaping mode (.grace deadline) →
    (∀ v ∈ mid, ∀ now group, v.event ≠ .reapTurn now group) → u.event = .reapTurn now group →
    (Reap.FindsNobody group → u.after.watch.phase.isReaping = false ∧ sent u = []) ∧
    (¬ Reap.FindsNobody group → sent u = [.kill] ∧
      u.after.watch.phase = .reaping mode (.kill 1 (now + s.reaping.killTimeoutMs)))

theorem sent_eq {signals : List Signal} (h : t.after.signals = t.before.signals ++ signals) :
    sent t = signals := by
  simp [sent, h]

/-- It is an interrupt that cuts the grace period short, and it leaves the watch alone. -/
theorem of_raised (ht : t.Of (advance s)) (hbefore : t.before.escalated = false) (hafter : t.after.escalated)
    (hp : t.before.watch.phase.isReaping) : t.after.watch = t.before.watch := by
  refine move_of_reaping (of_move ht) hp ?_
  intro now group he
  rcases (move_escalated_iff (of_move ht)).mp hafter with h | ⟨b, hb, -⟩
  · rw [hbefore] at h
    cases h
  · rw [he] at hb
    cases hb

theorem path_waits (hpath : Path (advance s) g ts g') (hp : g.watch.phase = .reaping mode (.grace deadline))
    (he : g.escalated) (hquiet : ∀ v ∈ ts, ∀ now group, v.event ≠ .reapTurn now group) :
    g'.watch.phase = .reaping mode (.grace deadline) ∧ g'.escalated := by
  refine hpath.preserves (P := fun g => g.watch.phase = _ ∧ g.escalated) ⟨hp, he⟩ ?_
  rintro v hv hstep ⟨hvp, hve⟩
  have hm := of_move hstep
  exact ⟨by rw [move_of_reaping hm (by rw [hvp]; rfl) (hquiet v hv), hvp],
    (move_escalated_iff hm).mpr (.inl hve)⟩

theorem turn_cuts (ht : t.Of (advance s)) (ho : t.before.Orderly) (hevent : t.event = .reapTurn now group)
    (hp : t.before.watch.phase = .reaping mode (.grace deadline)) (he : t.before.escalated) :
    (Reap.FindsNobody group → t.after.watch.phase.isReaping = false ∧ sent t = []) ∧
    (¬ Reap.FindsNobody group → sent t = [.kill] ∧
      t.after.watch.phase = .reaping mode (.kill 1 (now + s.reaping.killTimeoutMs))) := by
  have hm := of_move ht
  rw [hevent] at hm
  obtain ⟨w, fx, hw, hafter⟩ := move_turn hm ho hp
  rw [he] at hw
  have hwatch : t.after.watch = w := by rw [hafter]; rfl
  have hsent : sent t = Session.signalsOf fx := sent_eq (by rw [hafter]; rfl)
  rw [hwatch, hsent]
  exact ⟨Watch.move_grace_nobody hw hp, fun hsome => (Watch.move_grace_struck hw hp hsome).symm⟩

/-- Whatever the order in which signals, the watch and its reaps come to be served: the grace period is cut
short by a second interrupt soon after the one before it, then and for good. -/
theorem second_interrupt_cuts_grace (s : Settings) (id : ProcessId) (now : Nat) (events : List SessionEvent) :
    CutsGraceShort s (steps (advance s) (start s id now) events) where
  raised := by
    intro pre t post hts
    obtain ⟨hp, ht, -⟩ := steps_split hts
    exact path_escalated_iff (hp.snoc ht)
  kept := by
    intro t ht he
    exact (move_escalated_iff (of_move (of_mem_steps ht))).mpr (.inl he)
  firm := by
    intro t ht he
    obtain ⟨signals, hsent, hno⟩ := move_signals (of_move (of_mem_steps ht)) he
    rwa [sent_eq hsent]
  cut := by
    intro pre t mid u post mode deadline now group hts hbefore hafter hp hquiet hu
    obtain ⟨hpre, ht, es, hpost⟩ := steps_split hts
    obtain ⟨hmid, hturn, -⟩ := steps_split hpost
    have hstill : t.after.watch.phase = .reaping mode (.grace deadline) := by
      rw [of_raised ht hbefore hafter (by rw [hp]; rfl), hp]
    obtain ⟨hgrace, he⟩ := path_waits hmid hstill hafter hquiet
    exact turn_cuts hturn (path_orderly ((hpre.snoc ht).append hmid)) hu hgrace he

/-- A workload outlives the polite signal of a shutdown, and two interrupts come while it is waited for. -/
def impatient : List SessionEvent :=
  [.signal .terminate 0, .obey, .reapTurn 1000 (.ok [7]), .signal .interrupt 2000, .signal .interrupt 2500,
    .reapTurn 3000 (.ok [7])]

theorem impatient_struck : ∃ pre t u, steps (advance {}) (start {} ⟨7, 7⟩ 0) impatient = pre ++ t :: ([] ++ [u]) ∧
    t.before.watch.phase = .reaping .graceful (.grace 6000) ∧ t.before.escalated = false ∧ t.after.escalated ∧
    u.event = .reapTurn 3000 (.ok [7]) ∧ sent u = [.kill] := by
  refine ⟨[_, _, _, _], _, _, rfl, rfl, rfl, rfl, rfl, ?_⟩
  have hcut := (second_interrupt_cuts_grace {} ⟨7, 7⟩ 0 impatient).cut [_, _, _, _] _ [] _ [] .graceful 6000 3000
    (.ok [7]) rfl rfl rfl rfl (by simp) rfl
  exact (hcut.2 (by simp [Reap.FindsNobody])).1

end Sitting
end Vigil
