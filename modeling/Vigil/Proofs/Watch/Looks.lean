import Vigil.Proofs.Watch.AfterReap

/-!
# What a tick's look at the group decides

Once a watch has heard of the end of its process, each tick looks at the group. `Watch.decided_by_looks`:
an orphaned group is diagnosed only by such a look that names members, the end of a workload only by one
that finds nobody, and a look that cannot be taken leaves no trace, so that a run is the same with and
without the ticks that look in vain.
-/

namespace Vigil

def WatchEvent.tellsEnd : WatchEvent → Bool
  | .exited _ | .sampleFailed .processGone => true
  | _ => false

namespace Watch

variable {s : Settings} {w w' : Watch} {e : WatchEvent} {fx : List WatchEffect}

-- ---------------------------------------------------------------------------
-- One step
-- ---------------------------------------------------------------------------

/-- A watch comes to hold its process to be gone by news of its end, and by nothing else. -/
theorem move_parentGone_iff (hm : Move s w e w' fx) :
    w'.parentGone ↔ w.parentGone ∨ w.phase = .serving ∧ e.tellsEnd := by
  cases hm with
  | unheard hl =>
    have hquiet : ¬ (w.phase = .serving ∧ e.tellsEnd) := by
      rintro ⟨hp, htells⟩
      cases e with
      | exited | sampleFailed => simp [listens, hp] at hl
      | _ => cases htells
    simp [hquiet]
  | lost hp | exited hp => simp [hp, WatchEvent.tellsEnd]
  | collected hp => simp [hp]
  | _ => simp [WatchEvent.tellsEnd]

theorem findsNobody_of_liveness (h : w.liveness? group = some .groupEmpty) :
    w.parentGone ∧ Reap.FindsNobody group := by
  unfold liveness? at h
  split at h
  · rename_i hg
    split at h
    · exact ⟨hg, .inl rfl⟩
    · cases h
    · exact ⟨hg, .inr rfl⟩
    · cases h
  · cases h

theorem move_gone (hm : Move s w e w' fx) (hd : .diagnosed time d ∈ fx) (hg : d.target = .gone) :
    w.parentGone ∧ w.phase = .serving ∧ ∃ now group, e = .tick now group ∧ Reap.FindsNobody group := by
  cases hm with
  | @ticked now group liveness r hp hlive ht =>
    obtain ⟨-, hd⟩ := mem_publish.mp hd
    obtain ⟨m, out⟩ := r
    obtain rfl : out = some d := hd
    by_cases hl : liveness = .running
    · subst hl
      obtain ⟨hterm, -⟩ := Monitor.tick_running_target ht
      rw [hg] at hterm
      exact absurd rfl hterm
    · rcases Monitor.tick_target_of_gone ht hl with ⟨-, rfl⟩ | ⟨hz, -⟩
      · obtain ⟨hgone, hnobody⟩ := findsNobody_of_liveness hlive
        exact ⟨hgone, hp, now, group, rfl, hnobody⟩
      · cases hg.symm.trans hz
  | reset =>
    obtain ⟨-, hd⟩ := mem_publish.mp hd
    cases hg.symm.trans (Monitor.reset_target hd)
  | unreaped =>
    obtain ⟨-, hd⟩ := mem_publish.mp hd
    cases hg.symm.trans (Monitor.abandon_target hd)
  | _ => simp at hd

def LooksInVain (w : Watch) (e : WatchEvent) : Prop :=
  w.phase = .serving ∧ w.parentGone ∧ ∃ now why, e = .tick now (.error (.unavailable why))

theorem step_of_vain (h : w.LooksInVain e) : w.step s e = .ok (w, []) := by
  obtain ⟨hp, hg, now, why, rfl⟩ := h
  simp [step, listens, hp, serve, tick, liveness?, hg]

-- ---------------------------------------------------------------------------
-- Two runs
-- ---------------------------------------------------------------------------

/-- From a state on, the second list of events is the first one, with ticks that look in vain put in and
taken out. -/
inductive SameButVain (s : Settings) : Watch → List WatchEvent → List WatchEvent → Prop
  | nil {w : Watch} : SameButVain s w [] []
  | both {w w' : Watch} {e fx es fs} : w.step s e = .ok (w', fx) → SameButVain s w' es fs →
      SameButVain s w (e :: es) (e :: fs)
  /-- What would follow an event that breaks the watch does not count. -/
  | broken {w : Watch} {e x es fs} : w.step s e = .error x → SameButVain s w (e :: es) (e :: fs)
  | putIn {w : Watch} {e es fs} : w.LooksInVain e → SameButVain s w es fs → SameButVain s w es (e :: fs)
  | takenOut {w : Watch} {e es fs} : w.LooksInVain e → SameButVain s w es fs → SameButVain s w (e :: es) fs

theorem run_of_vain (h : w.LooksInVain e) (es : List WatchEvent) : run s w (e :: es) = run s w es := by
  rw [run, step_of_vain h]
  cases hr : run s w es <;> simp [hr, Except.map]

theorem SameButVain.run_eq {es fs : List WatchEvent} (h : SameButVain s w es fs) :
    run s w fs = run s w es := by
  induction h with
  | nil => rfl
  | both hstep _ ih => simp only [run, hstep, ih]
  | broken hstep => rw [run, run, hstep]
  | putIn hv _ ih => rw [run_of_vain hv, ih]
  | takenOut hv _ ih => rw [run_of_vain hv, ih]

-- ---------------------------------------------------------------------------
-- Whole runs
-- ---------------------------------------------------------------------------

variable {id : ProcessId} {now : Nat} {t : WatchStep} {ts : List WatchStep}

def HearsEnd (t : WatchStep) : Prop := t.before.phase = .serving ∧ t.event.tellsEnd

theorem path_hears_iff (hp : Path (step s) (start s id now) ts w) :
    w.parentGone ↔ ∃ u ∈ ts, HearsEnd u := by
  induction hp with
  | nil => simp [start]
  | snoc _ ht ih =>
    rw [exists_mem_snoc, ← ih]
    exact move_parentGone_iff (step_move ht)

structure DecidedByLooks (s : Settings) (id : ProcessId) (now : Nat) (events : List WatchEvent) :
    Prop where
  orphaned : ∀ pre t post time d, steps (step s) (start s id now) events = pre ++ t :: post →
    .diagnosed time d ∈ t.output → d.target = .zombie →
    (∃ u ∈ pre, HearsEnd u) ∧ Served t ∧ ∃ tickTime m ms, t.event = .tick tickTime (.ok (m :: ms))
  ended : ∀ pre t post time d, steps (step s) (start s id now) events = pre ++ t :: post →
    .diagnosed time d ∈ t.output → d.target = .gone →
    (∃ u ∈ pre, HearsEnd u) ∧ Served t ∧
      ∃ tickTime group, t.event = .tick tickTime group ∧ (group = .ok [] ∨ group = .error .gone)
  /-- A tick whose look at the group cannot be taken changes nothing and does nothing. -/
  traceless : ∀ pre t post tickTime why, steps (step s) (start s id now) events = pre ++ t :: post →
    Served t → t.event = .tick tickTime (.error (.unavailable why)) → (∃ u ∈ pre, HearsEnd u) →
    t.after = t.before ∧ t.output = []
  unnoticed : ∀ events', SameButVain s (start s id now) events events' →
    run s (start s id now) events' = run s (start s id now) events

theorem serving_of_tick (h : w.listens (.tick tickTime group)) : w.phase = .serving := by
  simpa [listens] using h

/-- Whatever is served in whichever order, it is the looks at the group that decide between an orphaned
group, the end of a workload, and nothing at all. -/
theorem decided_by_looks (s : Settings) (id : ProcessId) (now : Nat) (events : List WatchEvent) :
    DecidedByLooks s id now events where
  orphaned := by
    intro pre t post time d hts hd hz
    obtain ⟨hp, ht, -⟩ := steps_split hts
    obtain ⟨hg, -, hserving, tickTime, m, ms, he⟩ :=
      (move_finds_iff (step_move ht) (path_coherent hp)).mp ⟨time, d, hd, hz⟩
    exact ⟨(path_hears_iff hp).mp hg, by simp [Served, he, listens, hserving], tickTime, m, ms, he⟩
  ended := by
    intro pre t post time d hts hd hg
    obtain ⟨hp, ht, -⟩ := steps_split hts
    obtain ⟨hgone, hserving, tickTime, group, he, hnobody⟩ := move_gone (step_move ht) hd hg
    have hserved : Served t := by simp [Served, he, listens, hserving]
    exact ⟨(path_hears_iff hp).mp hgone, hserved, tickTime, group, he, hnobody⟩
  traceless := by
    intro pre t post tickTime why hts hserved he hheard
    obtain ⟨hp, ht, -⟩ := steps_split hts
    have hserving : t.before.phase = .serving := by
      unfold Served at hserved
      rw [he] at hserved
      exact serving_of_tick hserved
    have hvain : t.before.LooksInVain t.event := ⟨hserving, (path_hears_iff hp).mpr hheard, tickTime, why, he⟩
    obtain ⟨hafter, hout⟩ := Prod.mk.inj (Except.ok.inj (ht.symm.trans (step_of_vain hvain)))
    exact ⟨hafter, hout⟩
  unnoticed := fun _ h => h.run_eq

end Watch

end Vigil
