import Vigil.Proofs.Watch.Move

/-!
# One state in four places

The assessment, the evidence, the state that subscribers see and the stream of diagnoses each tell the
state of a workload. `Watch.diagnoses_in_step`: after any events they tell the same, the diagnoses form a
chain out of the healthy state, and the watch leaves its loop with the first terminal one and with
nothing else. One step keeps `Coherent` and adds diagnoses that lead from the state before it to the state
after it.
-/

namespace Vigil

-- ---------------------------------------------------------------------------
-- Chains of diagnoses
-- ---------------------------------------------------------------------------

/-- Diagnoses that lead from one state to another. Each begins where the one before it ended, and none
begins in a terminal state. -/
inductive Leads : Health → List Diagnosis → Health → Prop
  | nil {h} : Leads h [] h
  | cons {d ds h} : ¬ d.source.isTerminal → d.source ≠ d.target → Leads d.target ds h →
      Leads d.source (d :: ds) h

namespace Leads

variable {h h' h'' : Health} {d : Diagnosis} {ds es : List Diagnosis}

theorem append (hd : Leads h ds h') (he : Leads h' es h'') : Leads h (ds ++ es) h'' := by
  induction hd with
  | nil => exact he
  | cons ht hne _ ih => exact .cons ht hne (ih he)

theorem of_append (hl : Leads h (ds ++ es) h') : ∃ m, Leads h ds m ∧ Leads m es h' := by
  induction ds generalizing h with
  | nil => exact ⟨h, .nil, hl⟩
  | cons d ds ih =>
    cases hl with
    | cons ht hne hl =>
      obtain ⟨m, hm, hr⟩ := ih hl
      exact ⟨m, .cons ht hne hm, hr⟩

theorem source_eq (hl : Leads h (d :: ds) h') : d.source = h := by
  cases hl
  rfl

theorem head_source (hl : Leads h ds h') : ∀ d ∈ ds.head?, d.source = h := by
  cases hl with
  | nil => simp
  | cons => simp

theorem changes (hl : Leads h ds h') : ∀ d ∈ ds, d.source ≠ d.target := by
  induction hl with
  | nil => simp
  | cons _ hne _ ih => simpa using ⟨hne, ih⟩

theorem nil_of_terminal (hl : Leads h ds h') (ht : h.isTerminal) : ds = [] ∧ h' = h := by
  cases hl with
  | nil => exact ⟨rfl, rfl⟩
  | cons hn _ _ => exact absurd ht hn

theorem end_eq (hl : Leads h ds h') : h' = (ds.getLast?.map (·.target)).getD h := by
  induction hl with
  | nil => rfl
  | @cons d ds h' _ _ _ ih =>
    rw [ih, List.getLast?_cons]
    cases ds.getLast? <;> rfl

theorem terminal_last (hl : Leads h (ds ++ d :: es) h') (ht : d.target.isTerminal) :
    es = [] ∧ h' = d.target := by
  obtain ⟨m, -, hl⟩ := hl.of_append
  cases hl with
  | cons _ _ hl => exact hl.nil_of_terminal ht

theorem terminal_iff (hl : Leads h ds h') (hn : ¬ h.isTerminal) :
    h'.isTerminal ↔ ∃ d ∈ ds, d.target.isTerminal := by
  constructor
  · intro ht
    rw [hl.end_eq] at ht
    cases hlast : ds.getLast? with
    | none =>
      rw [hlast] at ht
      exact absurd ht hn
    | some d =>
      rw [hlast] at ht
      exact ⟨d, List.mem_of_getLast? hlast, ht⟩
  · rintro ⟨d, hd, ht⟩
    obtain ⟨before, after, rfl⟩ := List.append_of_mem hd
    rw [(hl.terminal_last ht).2]
    exact ht

end Leads

theorem Monitor.Judged.leads {m : Monitor} (hj : m.Judged r) : Leads m.state r.2.toList r.1.state := by
  cases hj with
  | stays hs _ =>
    show Leads _ [] _
    rw [hs]
    exact .nil
  | @turns m' d ht _ hsrc htgt _ hne =>
    rw [← hsrc] at ht ⊢
    show Leads _ [d] m'.state
    rw [← htgt]
    exact .cons ht hne .nil

namespace Watch

variable {s : Settings} {w w' : Watch} {e : WatchEvent} {fx : List WatchEffect}

-- ---------------------------------------------------------------------------
-- One step
-- ---------------------------------------------------------------------------

def sent (fx : List WatchEffect) : List Diagnosis := (Session.diagnosesOf fx).map (·.2)

theorem sent_append (fx gx : List WatchEffect) : sent (fx ++ gx) = sent fx ++ sent gx := by
  induction fx with
  | nil => rfl
  | cons e fx ih => cases e <;> simpa [sent, Session.diagnosesOf] using ih

@[simp] theorem sent_diagnosed (o : Option Diagnosis) :
    sent (o.toList.map (.diagnosed now)) = o.toList := by
  cases o <;> rfl

structure Agrees (w : Watch) : Prop where
  tracked : w.monitor.tracked.state = w.state
  published : w.published = w.state

/-- Besides, the loop has been left just when the state is terminal. -/
structure Coherent (w : Watch) : Prop extends w.Agrees where
  ended : w.phase.isOver = w.state.isTerminal

theorem start_coherent (s : Settings) (id : ProcessId) (now : Nat) : (start s id now).Coherent :=
  ⟨⟨rfl, rfl⟩, rfl⟩

theorem Coherent.not_terminal (hc : w.Coherent) (ho : w.phase.isOver = false) :
    ¬ w.state.isTerminal := by
  rw [← hc.ended, ho]
  exact Bool.false_ne_true

theorem publish_agrees (now : Nat) (ha : w.Agrees) (hj : w.monitor.Judged r) :
    (w.publish now r).1.Agrees := by
  rw [publish_eq]
  cases hj with
  | stays hs ht => exact ⟨ht.trans (ha.tracked.trans hs.symm), ha.published.trans hs.symm⟩
  | turns _ _ _ htgt htr _ => exact ⟨htr.symm.trans htgt, htgt⟩

theorem publish_leads (now : Nat) (hj : w.monitor.Judged r) :
    Leads w.state (sent (w.publish now r).2) (w.publish now r).1.state := by
  rw [publish_eq, sent_diagnosed]
  exact hj.leads

theorem settle_coherent (ha : w.Agrees) : w.settle.Coherent := by
  obtain ⟨p, hs, -, ho⟩ := settle_phase w
  rw [hs]
  exact ⟨⟨ha.tracked, ha.published⟩, ho⟩

theorem move_coherent (hc : w.Coherent) (hm : Move s w e w' fx) :
    Leads w.state (sent fx) w'.state ∧ w'.Coherent := by
  have ha := hc.toAgrees
  have hover := hc.ended
  cases hm with
  | unheard | unmetered | blind => exact ⟨.nil, hc⟩
  | line =>
    exact ⟨.nil, ⟨(Monitor.recordLine_tracked_state _).trans ha.tracked, ha.published⟩, hover⟩
  | reading =>
    exact ⟨.nil, ⟨(Monitor.recordSample_tracked_state _).trans ha.tracked, ha.published⟩, hover⟩
  | lost | exited | commandsEnded => exact ⟨.nil, ⟨ha.tracked, ha.published⟩, hover⟩
  | shutdown hp | sent hp | paused hp | collected hp | drained hp =>
    rw [hp] at hover
    exact ⟨.nil, ⟨ha.tracked, ha.published⟩, hover⟩
  | found | reaped => exact ⟨by simpa using .nil, settle_coherent ⟨ha.tracked, ha.published⟩⟩
  | @ticked now group liveness r hp _ ht =>
    have hj := Monitor.tick_judged ht
    have hv := publish_agrees now ha hj
    have hl := publish_leads now hj
    rcases respond_cases s (w.publish now r).1 r.2 with hr | ⟨d, hd, hcall, hr⟩
    · rw [hr, settle_state]
      exact ⟨hl, settle_coherent hv⟩
    · have hterm : ¬ (w.publish now r).1.state.isTerminal := by
        rw [publish_eq]
        show ¬ r.1.state.isTerminal
        rw [← hj.target_eq hd]
        exact not_terminal_of_callsForReap hcall
      rw [hr]
      exact ⟨hl, ⟨hv.tracked, hv.published⟩, (Bool.eq_false_iff.mpr hterm).symm⟩
  | reset =>
    rw [settle_state]
    exact ⟨publish_leads _ Monitor.reset_judged,
      settle_coherent (publish_agrees _ ha Monitor.reset_judged)⟩
  | @unreaped _ _ now _ _ failure =>
    have hj : w.monitor.Judged (w.monitor.abandon failure.message now) := Monitor.abandon_judged
    have hv := publish_agrees now ha hj
    rw [settle_state]
    exact ⟨publish_leads now hj, settle_coherent ⟨hv.tracked, hv.published⟩⟩

-- ---------------------------------------------------------------------------
-- Whole runs
-- ---------------------------------------------------------------------------

theorem run_cons_ok (h : run s w (e :: es) = .ok (w', fx)) :
    ∃ v gx hx, w.step s e = .ok (v, gx) ∧ run s v es = .ok (w', hx) ∧ fx = gx ++ hx := by
  simp only [run] at h
  split at h
  · cases h
  · rename_i v gx hstep
    obtain ⟨⟨_, hx⟩, hrun, h⟩ := map_ok.mp h
    cases h
    exact ⟨v, gx, hx, hstep, hrun, rfl⟩

theorem run_coherent (hc : w.Coherent) (h : run s w es = .ok (w', fx)) :
    Leads w.state (sent fx) w'.state ∧ w'.Coherent := by
  induction es generalizing w fx with
  | nil =>
    cases h
    exact ⟨.nil, hc⟩
  | cons e es ih =>
    obtain ⟨v, gx, hx, hstep, hrun, rfl⟩ := run_cons_ok h
    obtain ⟨hl, hv⟩ := move_coherent hc (step_move hstep)
    obtain ⟨hl', hw'⟩ := ih hv hrun
    rw [sent_append]
    exact ⟨hl.append hl', hw'⟩

theorem run_error (h : run s w es = .error x) :
    Settings.spanLimit ≤ s.assessment.loopDwell + s.cpu.window := by
  induction es generalizing w with
  | nil => cases h
  | cons e es ih =>
    simp only [run] at h
    split at h
    · rename_i hstep
      exact step_error hstep
    · exact ih (map_error.mp h)

def lastState (ds : List Diagnosis) : Health := (ds.getLast?.map (·.target)).getD .healthy

/-- A watch is in step with the diagnoses that it has sent. -/
structure InStep (w : Watch) (ds : List Diagnosis) : Prop where
  first : ∀ d ∈ ds.head?, d.source = .healthy
  linked : ∀ before d e after, ds = before ++ d :: e :: after → e.source = d.target
  changes : ∀ d ∈ ds, d.source ≠ d.target
  assessed : w.monitor.assessor.state = lastState ds
  tracked : w.monitor.tracked.state = lastState ds
  published : w.published = lastState ds
  ended : w.phase.isOver ↔ ∃ d ∈ ds, d.target.isTerminal
  final : ∀ before d after, ds = before ++ d :: after → d.target.isTerminal →
    after = [] ∧ w.outcome.finalState = d.target

theorem Coherent.inStep (hc : w.Coherent) (hl : Leads .healthy ds w.state) : w.InStep ds where
  first := hl.head_source
  linked := by
    rintro before d e after rfl
    obtain ⟨m, -, hl⟩ := hl.of_append
    cases hl with
    | cons _ _ hl => exact hl.source_eq
  changes := hl.changes
  assessed := hl.end_eq
  tracked := hc.tracked.trans hl.end_eq
  published := hc.published.trans hl.end_eq
  ended := by
    rw [hc.ended]
    exact hl.terminal_iff (by decide)
  final := by
    rintro before d after rfl ht
    exact hl.terminal_last ht

/-- After any events in any order, with any answers to the looks at the group, a watch is in step with
the diagnoses that it has sent, unless a judgement could not be made. The events may stop at any point,
so this holds between any two of them. -/
theorem diagnoses_in_step (s : Settings) (id : ProcessId) (now : Nat) (events : List WatchEvent) :
    match run s (start s id now) events with
    | .ok (w, effects) => w.InStep (sent effects)
    | .error _ => Settings.spanLimit ≤ s.assessment.loopDwell + s.cpu.window := by
  split
  · rename_i w effects h
    obtain ⟨hl, hc⟩ := run_coherent (start_coherent s id now) h
    exact hc.inStep hl
  · rename_i h
    exact run_error h

end Watch

end Vigil
