import Vigil.Proofs.Supervisor.Calls
import Vigil.Rehearsal.World

/-!
# Rehearsals run a supervisor

`World.playFor_plays`: whatever a script says and however far it is played, its supervisor is one that an
interleaving of calls and watches has led to. So what holds under all interleavings holds in every rehearsal.
`World.Came` lists how a step can come by a workload, so what holds however one comes about holds of all of
them, `World.playFor_each`.
-/

namespace Vigil

-- ---------------------------------------------------------------------------
-- Runs of one workload
-- ---------------------------------------------------------------------------

inductive Charge.Runs (s : Settings) : Charge → List ChargeEvent → Charge → Prop
  | nil {c} : Runs s c [] c
  | cons {c e es c'} : ¬ c.isFinished → Runs s (c.step s e).1 es c' → Runs s c (e :: es) c'

variable {s : Settings} {c c' : Charge}

theorem Charge.Runs.single (hf : ¬ c.isFinished) (e : ChargeEvent) : Runs s c [e] (c.step s e).1 :=
  .cons hf .nil

theorem Supervisor.play_within {g : Supervisor} {p : Nat} {es : List ChargeEvent}
    (hc : g.charges[p]? = some c) (h : c.Runs s es c') :
    g.play s (es.map (.within p)) = { g with charges := g.charges.set p c' } := by
  induction h generalizing g with
  | nil =>
    obtain ⟨hp, rfl⟩ := List.getElem?_eq_some_iff.mp hc
    rw [List.set_getElem_self]
    rfl
  | @cons c e es c' hf _ ih =>
    have hstep : g.step s (.within p e) = { g with charges := g.charges.set p (c.step s e).1 } := by
      simp [step, alter, hc, hf]
    have hset : (g.step s (.within p e)).charges[p]? = some (c.step s e).1 := by
      simp [hstep, (List.getElem?_eq_some_iff.mp hc).1]
    have hrest := ih hset
    rw [play] at hrest ⊢
    rw [List.map_cons, List.foldl_cons, hrest, hstep, List.set_set]

theorem Supervisor.play_append (s : Settings) (g : Supervisor) (es es' : List SupervisorEvent) :
    g.play s (es ++ es') = (g.play s es).play s es' :=
  List.foldl_append

namespace Rehearsal

-- ---------------------------------------------------------------------------
-- One workload
-- ---------------------------------------------------------------------------

namespace Task

variable {now : Nat} {t t' : Task} {around around' : Surroundings}

theorem applyEffects_charge (now : Nat) (t : Task) (around : Surroundings) (fx : List WatchEffect) :
    (applyEffects now t around fx).1.toCharge = t.toCharge := by
  induction fx generalizing t around with
  | nil => rfl
  | cons e fx ih =>
    cases e with
    | diagnosed | signalled | paused => exact ih ..

theorem act_charge (s : Settings) (now : Nat) (t : Task) (around : Surroundings) (e : ChargeEvent) :
    (t.act s now around e).1.toCharge = (t.step s e).1 :=
  applyEffects_charge ..

theorem tick_runs (s : Settings) (hf : ¬ t.isFinished) (now : Nat) (around : Surroundings) :
    ∃ es, t.Runs s es (t.tick s now around).1.toCharge := by
  rw [tick, act_charge]
  exact ⟨_, .single hf _⟩

theorem setStream_charge (t : Task) (toStderr : Bool) (stream : StreamState) :
    (t.setStream toStderr stream).toCharge = t.toCharge := by
  cases toStderr <;> rfl

theorem setStream_watched (t : Task) (toStderr : Bool) (stream : StreamState) :
    (t.setStream toStderr stream).watched = t.watched :=
  congrArg Charge.watched (setStream_charge t toStderr stream)

theorem readSegment_charge (now : Nat) (t : Task) (around : Surroundings) (toStderr : Bool)
    (segment : List UInt8) : (t.readSegment now around toStderr segment).1.toCharge =
      { t.toCharge with watched := t.watched.bring (.line now (.ofSegment segment)) } := by
  cases toStderr with
  | false | true =>
    simp only [readSegment, Bool.false_eq_true, ↓reduceIte]
    split
    · split <;> rfl
    · rfl

theorem readSegment_watched (now : Nat) (t : Task) (around : Surroundings) (toStderr : Bool)
    (segment : List UInt8) : (t.readSegment now around toStderr segment).1.watched =
      t.watched.bring (.line now (.ofSegment segment)) :=
  congrArg Charge.watched (readSegment_charge now t around toStderr segment)

theorem readStream_runs (s : Settings) (hf : ¬ t.isFinished) (now : Nat) (around : Surroundings)
    (toStderr : Bool) : ∃ es, t.Runs s es (t.readStream now around toStderr).1.toCharge := by
  simp only [readStream]
  split
  · rw [setStream_charge]
    exact ⟨[], .nil⟩
  · rename_i segment segments _
    rw [readSegment_charge, setStream_charge]
    exact ⟨_, .single hf (.feed (.line now (.ofSegment segment)))⟩

theorem feedBy_runs (s : Settings) (hf : ¬ t.isFinished) (now due : Nat) (around : Surroundings)
    (f : Feeder) : ∃ es, t.Runs s es (t.feedBy s now due around f).1.toCharge := by
  cases f with
  | stdout | stderr => exact readStream_runs s hf ..
  | meter => exact ⟨_, .single hf (.feed (.look now (t.lookAtTree around.host now).1))⟩
  | exit =>
    simp only [feedBy]
    split
    · rename_i time result _
      exact ⟨_, .single hf (.feed (.waited result))⟩
    · exact ⟨[], .nil⟩

theorem feed_runs (hf : ¬ t.isFinished) (h : t.feed? s now around = some (t', around')) :
    ∃ es, t.Runs s es t'.toCharge := by
  obtain ⟨f, -, hfed⟩ := List.exists_of_findSome?_eq_some h
  split at hfed
  · split at hfed
    · rename_i due _ _
      have hruns := feedBy_runs s hf now due around f
      rwa [Option.some.inj hfed] at hruns
    · cases hfed
  · cases hfed

theorem watch_acts (h : t.watch? s now around = some (t', around')) :
    ∃ (u : Task) (e : ChargeEvent), u.toCharge = t.toCharge ∧ u.stream = t.stream ∧
      u.act s now around e = (t', around') := by
  unfold watch? at h
  split at h
  · split at h
    · exact ⟨t, _, rfl, rfl, Option.some.inj h⟩
    · cases h
  · exact ⟨{ t with brought := t.brought.drop 1 }, _, rfl, rfl, Option.some.inj h⟩
  · exact ⟨{ t with brought := t.brought.drop 1 }, _, rfl, rfl, Option.some.inj h⟩
  · split at h
    · exact ⟨t, _, rfl, rfl, Option.some.inj h⟩
    · split at h
      · rw [tick] at h
        exact ⟨{ t with nextTick := tickAfter s.assessment.tickMs t.nextTick now }, _, rfl, rfl,
          Option.some.inj h⟩
      · cases h
  · split at h
    · exact ⟨t, _, rfl, rfl, Option.some.inj h⟩
    · cases h
  · cases h

theorem watch_runs (hf : ¬ t.isFinished) (h : t.watch? s now around = some (t', around')) :
    ∃ es, t.Runs s es t'.toCharge := by
  obtain ⟨u, e, hu, -, hact⟩ := watch_acts h
  have hcharge := act_charge s now u around e
  rw [hact, hu] at hcharge
  exact ⟨[e], hcharge ▸ .single hf e⟩

theorem notice_eq (now : Nat) (t : Task) (h : Host) : t.notice now h = t ∨
    ∃ code, t.notice now h = { t with watched := t.watched.endWith code } := by
  unfold notice
  split
  · rename_i d _
    split
    · exact .inr ⟨d.code, rfl⟩
    · exact .inl rfl
  · exact .inl rfl

theorem advance_runs (h : t.advance? s now around = some (t', around')) :
    ¬ t.isFinished ∧ ∃ es, t.Runs s es t'.toCharge := by
  unfold advance? at h
  split at h
  · cases h
  rename_i hf
  refine ⟨hf, ?_⟩
  have hruns {u : Task} (hu : ¬ u.isFinished)
      (h : ((u.feed? s now around).or (u.watch? s now around)) = some (t', around')) :
      ∃ es, u.Runs s es t'.toCharge := by
    rcases Option.or_eq_some_iff.mp h with hfeed | ⟨-, hwatch⟩
    · exact feed_runs hu hfeed
    · exact watch_runs hu hwatch
  rcases notice_eq now t around.host with hsame | ⟨code, hends⟩
  · rw [hsame] at h
    exact hruns hf h
  · rw [hends] at h
    obtain ⟨es, hes⟩ := hruns (u := { t with watched := t.watched.endWith code }) hf h
    exact ⟨.feed (.ends code) :: es, .cons hf hes⟩

end Task

-- ---------------------------------------------------------------------------
-- The supervisor of a rehearsal
-- ---------------------------------------------------------------------------

namespace World

variable {w w' : World} {t t' : Task} {g : Supervisor}

/-- An interleaving leads from the supervisor of one world to that of another. -/
def Plays (w w' : World) : Prop :=
  ∃ es, w'.supervisor = w.supervisor.play w.setup.settings es

theorem put_charges {ts : List Task} {cs : List Charge} (h : ts.length ≤ cs.length) :
    (ts.zipWith (fun t c => { t with toCharge := c }) cs).map (·.toCharge) = cs.take ts.length := by
  induction ts generalizing cs with
  | nil => simp
  | cons t ts ih =>
    cases cs with
    | nil => simp at h
    | cons c cs => simp [ih (by simpa using h)]

theorem settle_supervisor (h : w.tasks.length ≤ g.charges.length) :
    (w.settle g).supervisor = { g with charges := g.charges.take w.tasks.length } := by
  unfold settle
  split
  · simp only [reply, supervisor, put_charges h]
  · simp only [supervisor, put_charges h]

theorem settle_goOn (h : GoOn s w.supervisor.charges g.charges) : (w.settle g).supervisor = g := by
  have hlength : w.tasks.length = g.charges.length := by
    rw [← h.length_eq, supervisor, List.length_map]
  rw [settle_supervisor (Nat.le_of_eq hlength), hlength, List.take_length]

theorem settle_plays {e : SupervisorEvent} (hg : w.supervisor.step w.setup.settings e = g)
    (hgo : GoOn w.setup.settings w.supervisor.charges g.charges) : w.Plays (w.settle g) :=
  ⟨[e], by rw [settle_goOn hgo, ← hg]; rfl⟩

theorem step_call (hidle : w.inHand = none) (c : SupervisorCall) :
    w.supervisor.step w.setup.settings (.call c) = w.supervisor.begin w.setup.settings c := by
  simp [Supervisor.step, supervisor, hidle]

theorem call_plays (hidle : w.inHand = none) {c : SupervisorCall}
    (hgo : (w.supervisor.begin w.setup.settings c).charges = w.supervisor.charges) :
    w.Plays (w.call c) :=
  settle_plays (step_call hidle c) (hgo ▸ goOn_refl _)

/-- A new workload stands behind all others. What happens to it at once happens after the call. -/
theorem push_plays {id : ProcessId} {es : List ChargeEvent} (hidle : w.inHand = none)
    (hruns : (Charge.start w.setup.settings id w.now).Runs w.setup.settings es t.toCharge)
    (around : Surroundings) :
    w.Plays { w.call (.track (.ok id) w.now) with
      around
      tasks := (w.call (.track (.ok id) w.now)).tasks ++ [t] } := by
  obtain ⟨charges, hgo, hfile⟩ := w.supervisor.file_eq w.setup.settings id w.now
  have hlength : w.tasks.length = charges.length := by
    rw [← hgo.length_eq, supervisor, List.length_map]
  have hbegin : w.supervisor.begin w.setup.settings (.track (.ok id) w.now) =
      Supervisor.reply { w.supervisor with
        charges := charges ++ [Charge.start w.setup.settings id w.now]
        register := w.register.insert id w.supervisor.charges.length }
        (.track (.ok id) w.now) (.tracked id) := by
    rw [Supervisor.begin, hfile]
    rfl
  have hcall : (w.call (.track (.ok id) w.now)).supervisor =
      { w.supervisor.begin w.setup.settings (.track (.ok id) w.now) with charges } := by
    rw [call, settle_supervisor (by simp [hbegin, Supervisor.reply, hlength]), hbegin]
    simp [Supervisor.reply, hlength]
  have hplace : (w.supervisor.begin w.setup.settings (.track (.ok id) w.now)).charges[charges.length]? =
      some (Charge.start w.setup.settings id w.now) := by
    simp [hbegin, Supervisor.reply]
  refine ⟨.call (.track (.ok id) w.now) :: es.map (.within charges.length), ?_⟩
  have hplay := Supervisor.play_within hplace hruns
  rw [Supervisor.play, List.foldl_cons, step_call hidle, ← Supervisor.play, hplay]
  have hpushed : ({ w.call (.track (.ok id) w.now) with
      around
      tasks := (w.call (.track (.ok id) w.now)).tasks ++ [t] } : World).supervisor =
      { (w.call (.track (.ok id) w.now)).supervisor with
        charges := (w.call (.track (.ok id) w.now)).supervisor.charges ++ [t.toCharge] } := by
    simp [supervisor]
  rw [hpushed, hcall, hbegin]
  simp [Supervisor.reply]

theorem attach_plays (hidle : w.inHand = none) (program : Program) : w.Plays (w.attach program) := by
  simp only [attach]
  split
  · exact push_plays hidle .nil _
  · rename_i hbroken
    have hgoing := Charge.start_going hbroken
    obtain ⟨es, hruns⟩ := Task.tick_runs w.setup.settings (t := .start w.setup.settings
      program.process.pid program _ w.setup.passthrough w.now) hgoing w.now w.around
    exact push_plays hidle hruns _

theorem track_plays (hidle : w.inHand = none) (command : List String) : w.Plays (w.track command) := by
  unfold track
  split
  · rename_i e _
    exact call_plays (c := .track (.error e) w.now) hidle rfl
  · rename_i program _
    simp only
    split
    · exact attach_plays (w := w.spawn program) hidle program
    · exact call_plays (w := w.spawn program) (c := .track (.error _) w.now) hidle rfl

theorem begin_plays (hidle : w.inHand = none) (order : Order) : w.Plays (w.begin order) := by
  cases order with
  | track command => exact track_plays hidle command
  | state pid => exact call_plays hidle rfl
  | shutdown immediate | finish immediate => exact call_plays hidle rfl
  | reset pid | wait pid =>
    refine call_plays hidle ?_
    simp only [Supervisor.begin]
    split <;> rfl
  | drop =>
    refine settle_plays (e := .letGo) rfl ?_
    exact List.forall₂_map_right_iff.mpr (List.forall₂_same.mpr fun c _ => .of_same rfl rfl)

theorem operate_plays (h : w.operate? = some w') : w.Plays w' := by
  unfold operate? at h
  split at h
  · rename_i hhand
    obtain ⟨g, hg, rfl⟩ := Option.map_eq_some_iff.mp h
    refine settle_plays (e := .proceed) (by rw [Supervisor.step, hg]; rfl) ?_
    exact Supervisor.proceed_goOn hg
  · rename_i hidle _
    split at h
    · cases h
      exact begin_plays hidle _
    · cases h
  · cases h

theorem advanceTasks_plays {ts : List Task} {place : Nat}
    (hts : ∀ k t, ts[k]? = some t → w.tasks[place + k]? = some t)
    (h : w.advanceTasks? place ts = some w') : w.Plays w' := by
  induction ts generalizing place with
  | nil => cases h
  | cons t rest ih =>
    unfold advanceTasks? at h
    split at h
    · rename_i t' around' hadvance
      cases h
      obtain ⟨-, es, hruns⟩ := Task.advance_runs hadvance
      have hcharge : w.supervisor.charges[place]? = some t.toCharge := by
        simp [supervisor, show w.tasks[place]? = some t from hts 0 t rfl]
      exact ⟨_, by rw [Supervisor.play_within hcharge hruns]; simp [supervisor, List.map_set]⟩
    · refine ih (fun k u hu => ?_) h
      rw [Nat.add_right_comm]
      exact hts (k + 1) u hu

theorem step_plays (h : w.step = some w') : w.Plays w' := by
  unfold step at h
  rcases Option.or_eq_some_iff.mp h with h | ⟨-, h⟩
  · exact advanceTasks_plays (fun k t ht => by rwa [Nat.zero_add]) h
  · rcases Option.or_eq_some_iff.mp h with h | ⟨-, h⟩
    · exact operate_plays h
    · obtain ⟨time, -, rfl⟩ := Option.map_eq_some_iff.mp h
      exact ⟨[], rfl⟩

-- ---------------------------------------------------------------------------
-- How a step comes by a workload
-- ---------------------------------------------------------------------------

/-- Its streams are as they were, or one thing happens that is due in it, or it is started and may tick at
once. -/
inductive Came (w : World) : Task → Prop
  | kept {t t' : Task} (mem : t ∈ w.tasks) (stream : t'.stream = t.stream) : Came w t'
  | advanced {t t' : Task} {around : Surroundings} (mem : t ∈ w.tasks)
      (due : t.advance? w.setup.settings w.now w.around = some (t', around)) : Came w t'
  | started (pid : Int) (program : Program) (place : Nat) :
      Came w (.start w.setup.settings pid program place w.setup.passthrough w.now)
  | ticked (pid : Int) (program : Program) (place : Nat) (around : Surroundings) :
      Came w ((Task.start w.setup.settings pid program place w.setup.passthrough w.now).tick
        w.setup.settings w.now around).1

structure LeadsTo (w w' : World) : Prop where
  setup : w'.setup = w.setup
  came : ∀ t ∈ w'.tasks, w.Came t

theorem mem_put {ts : List Task} {cs : List Charge}
    (h : t' ∈ ts.zipWith (fun t c => { t with toCharge := c }) cs) :
    ∃ t ∈ ts, t'.stream = t.stream := by
  induction ts generalizing cs with
  | nil => simp at h
  | cons t ts ih =>
    cases cs with
    | nil => simp at h
    | cons c cs =>
      rcases List.mem_cons.mp h with rfl | h
      · exact ⟨t, List.mem_cons_self, rfl⟩
      · obtain ⟨u, hu, hstream⟩ := ih h
        exact ⟨u, List.mem_cons_of_mem _ hu, hstream⟩

theorem settle_leads (w : World) (around : Surroundings) (g : Supervisor) :
    w.LeadsTo (settle { w with around } g) := by
  have hcame {t : Task} (ht : t ∈ w.tasks.zipWith (fun t c => { t with toCharge := c }) g.charges) :
      w.Came t := by
    obtain ⟨u, hu, hstream⟩ := mem_put ht
    exact .kept hu hstream
  unfold settle
  split
  · exact ⟨rfl, fun _ => hcame⟩
  · exact ⟨rfl, fun _ => hcame⟩

theorem attach_leads (w : World) (around : Surroundings) (program : Program) :
    w.LeadsTo (attach { w with around } program) where
  setup := by
    simp only [attach]
    exact (settle_leads w around _).setup
  came t ht := by
    simp only [attach] at ht
    rcases List.mem_append.mp ht with ht | ht
    · exact (settle_leads w around _).came t ht
    · obtain rfl := List.mem_singleton.mp ht
      split
      · exact .started ..
      · exact .ticked ..

theorem begin_leads (w : World) (order : Order) : w.LeadsTo (w.begin order) := by
  cases order with
  | track command =>
    simp only [begin, track]
    split
    · exact settle_leads w w.around _
    · split
      · exact attach_leads w _ _
      · exact settle_leads w _ _
  | drop =>
    have hsettled := settle_leads w w.around (w.supervisor.step w.setup.settings .letGo)
    exact ⟨hsettled.setup, hsettled.came⟩
  | state | shutdown | finish | reset | wait => exact settle_leads w w.around _

theorem operate_leads (h : w.operate? = some w') : w.LeadsTo w' := by
  unfold operate? at h
  split at h
  · obtain ⟨g, -, rfl⟩ := Option.map_eq_some_iff.mp h
    exact settle_leads w w.around g
  · split at h
    · cases h
      exact begin_leads w _
    · cases h
  · cases h

theorem advanceTasks_leads {ts : List Task} {place : Nat} (hts : ∀ t ∈ ts, t ∈ w.tasks)
    (h : w.advanceTasks? place ts = some w') : w.LeadsTo w' := by
  induction ts generalizing place with
  | nil => cases h
  | cons t rest ih =>
    unfold advanceTasks? at h
    split at h
    · rename_i t' around' hadvance
      cases h
      refine ⟨rfl, fun u hu => ?_⟩
      rcases List.mem_or_eq_of_mem_set hu with hu | rfl
      · exact .kept hu rfl
      · exact .advanced (hts t List.mem_cons_self) hadvance
    · exact ih (fun u hu => hts u (List.mem_cons_of_mem _ hu)) h

theorem step_leads (h : w.step = some w') : w.LeadsTo w' := by
  unfold step at h
  rcases Option.or_eq_some_iff.mp h with h | ⟨-, h⟩
  · exact advanceTasks_leads (fun _ ht => ht) h
  · rcases Option.or_eq_some_iff.mp h with h | ⟨-, h⟩
    · exact operate_leads h
    · obtain ⟨time, -, rfl⟩ := Option.map_eq_some_iff.mp h
      exact ⟨rfl, fun _ ht => .kept ht rfl⟩

-- ---------------------------------------------------------------------------
-- A script
-- ---------------------------------------------------------------------------

variable {P : Task → Prop} {setup : Setup}

theorem run_plays (fuel : Nat) (w : World) : w.Plays (run fuel w) := by
  induction fuel generalizing w with
  | zero => exact ⟨[], rfl⟩
  | succ fuel ih =>
    unfold run
    split
    · rename_i next hnext
      obtain ⟨es, hes⟩ := step_plays hnext
      obtain ⟨es', hes'⟩ := ih next
      rw [hes, (step_leads hnext).setup, ← Supervisor.play_append] at hes'
      exact ⟨es ++ es', hes'⟩
    · exact ⟨[], rfl⟩

/-- The supervisor of a rehearsal is one that an interleaving has led to. -/
theorem playFor_plays (steps : Nat) (setup : Setup) :
    ∃ es, (playFor steps setup).supervisor = Supervisor.play setup.settings {} es :=
  run_plays steps (init setup)

theorem run_each (hP : ∀ {w : World} {t : Task}, w.setup = setup → (∀ u ∈ w.tasks, P u) → w.Came t → P t)
    (hsetup : w.setup = setup) (hw : ∀ t ∈ w.tasks, P t) (fuel : Nat) :
    (run fuel w).setup = setup ∧ ∀ t ∈ (run fuel w).tasks, P t := by
  induction fuel generalizing w with
  | zero => exact ⟨hsetup, hw⟩
  | succ fuel ih =>
    unfold run
    split
    · rename_i next hnext
      have hleads := step_leads hnext
      exact ih (hleads.setup.trans hsetup) fun t ht => hP hsetup hw (hleads.came t ht)
    · exact ⟨hsetup, hw⟩

/-- What holds of a workload however it comes about holds of all workloads of a rehearsal. -/
theorem playFor_each (hP : ∀ {w : World} {t : Task}, w.setup = setup → (∀ u ∈ w.tasks, P u) → w.Came t → P t)
    (steps : Nat) : (playFor steps setup).setup = setup ∧ ∀ t ∈ (playFor steps setup).tasks, P t :=
  run_each hP rfl (fun _ ht => by cases ht) steps

end World

end Rehearsal

end Vigil
