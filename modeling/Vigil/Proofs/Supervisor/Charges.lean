import Mathlib.Data.List.Forall2
import Vigil.Proofs.Watch.Feeding
import Vigil.Watch.Supervisor

/-!
# Workloads in the charge of a supervisor

Whatever happens to a workload, `Charge.GoesOn`: it keeps its identity, and one whose watch has ended stays as it
ended. Its watched process is one that steps have led to from a start, `Charge.Begun`, so what holds of
all runs of watched processes holds of it.
-/

namespace Vigil

-- ---------------------------------------------------------------------------
-- Runs of a watched process
-- ---------------------------------------------------------------------------

def Reaches (s : Settings) (w w' : Watched) : Prop := ∃ ts, Path (Watched.step s) w ts w'

variable {s : Settings} {w w' w'' : Watched}

theorem Reaches.refl : Reaches s w w := ⟨[], .nil⟩

theorem Reaches.trans (h : Reaches s w w') (h' : Reaches s w' w'') : Reaches s w w'' := by
  obtain ⟨ts, hp⟩ := h
  obtain ⟨us, hq⟩ := h'
  exact ⟨ts ++ us, hp.append hq⟩

theorem Reaches.step {e : WatchedEvent} {fx : List WatchEffect} (h : w.step s e = .ok (w', fx)) :
    Reaches s w w' :=
  ⟨_, Path.nil.snoc (t := ⟨w, e, fx, w'⟩) h⟩

theorem Reaches.id (h : Reaches s w w') : w'.watch.id = w.watch.id := by
  obtain ⟨ts, hp⟩ := h
  exact Watched.path_watch (P := fun v => v.id = w.watch.id) hp rfl
    fun _ _ _ _ hm hid => (Watch.move_id hm).trans hid

-- ---------------------------------------------------------------------------
-- One workload
-- ---------------------------------------------------------------------------

namespace Charge

variable {c c' c'' : Charge}

def Begun (s : Settings) (c : Charge) : Prop :=
  ∃ id now, Reaches s (.start s id now) c.watched

theorem start_begun (s : Settings) (id : ProcessId) (now : Nat) : (start s id now).Begun s :=
  ⟨id, now, .refl⟩

theorem start_going {id : ProcessId} {now : Nat} (h : ¬ (start s id now).broken) :
    ¬ (start s id now).isFinished := by
  simpa [isFinished, start, watch, Watched.start, Watch.start] using h

theorem Begun.reaches (h : c.Begun s) (hr : Reaches s c.watched c'.watched) : c'.Begun s := by
  obtain ⟨id, now, hbegun⟩ := h
  exact ⟨id, now, hbegun.trans hr⟩

/-- The state that is seen of a watch at its end is that of its outcome. -/
theorem Begun.finalState (h : c.Begun s) :
    (c.outcome c.watch.published).finalState = c.watch.published := by
  obtain ⟨id, now, ts, hp⟩ := h
  unfold outcome
  split
  · rfl
  · exact (Watched.path_coherent hp).published.symm

theorem serve_reaches (s : Settings) (c : Charge) (e : WatchedEvent) :
    Reaches s c.watched (c.serve s e).1.watched := by
  unfold serve
  cases h : c.watched.step s e with
  | ok r => exact .step h
  | error => exact .refl

theorem step_reaches (s : Settings) (c : Charge) (e : ChargeEvent) :
    Reaches s c.watched (c.step s e).1.watched := by
  cases e with
  | feed e =>
    simp only [step]
    split
    · exact serve_reaches s c e
    · exact .refl
  | reapTurn => exact serve_reaches s c _
  | obey now =>
    simp only [step, obey]
    split
    · rename_i k rest _ _
      exact serve_reaches s { c with commands := rest } _
    · split
      · exact serve_reaches s c _
      · exact .refl
    · exact .refl

/-- The second is the first one, at the same time or later. -/
structure GoesOn (s : Settings) (c c' : Charge) : Prop where
  reaches : Reaches s c.watched c'.watched
  ended : c.isFinished → c'.watched = c.watched ∧ c'.broken = c.broken

theorem GoesOn.of_same (hw : c'.watched = c.watched) (hb : c'.broken = c.broken) : GoesOn s c c' :=
  ⟨hw ▸ .refl, fun _ => ⟨hw, hb⟩⟩

theorem GoesOn.refl : GoesOn s c c := .of_same rfl rfl

theorem GoesOn.id (h : GoesOn s c c') : c'.id = c.id := h.reaches.id

theorem GoesOn.isFinished (h : GoesOn s c c') (hf : c.isFinished) : c'.isFinished := by
  obtain ⟨hw, hb⟩ := h.ended hf
  unfold Charge.isFinished watch at hf ⊢
  rwa [hw, hb]

theorem GoesOn.trans (h : GoesOn s c c') (h' : GoesOn s c' c'') : GoesOn s c c'' where
  reaches := h.reaches.trans h'.reaches
  ended := by
    intro hf
    obtain ⟨hw, hb⟩ := h.ended hf
    obtain ⟨hw', hb'⟩ := h'.ended (h.isFinished hf)
    exact ⟨hw'.trans hw, hb'.trans hb⟩

theorem GoesOn.outcome (h : GoesOn s c c') (hf : c.isFinished) (seen : Health) :
    c'.outcome seen = c.outcome seen := by
  obtain ⟨hw, hb⟩ := h.ended hf
  simp only [Charge.outcome, Charge.id, watch, hw, hb]

theorem step_goesOn (hf : ¬ c.isFinished) (e : ChargeEvent) : GoesOn s c (c.step s e).1 :=
  ⟨step_reaches s c e, fun h => absurd h hf⟩

end Charge

-- ---------------------------------------------------------------------------
-- All workloads
-- ---------------------------------------------------------------------------

abbrev GoOn (s : Settings) (cs cs' : List Charge) : Prop := List.Forall₂ (Charge.GoesOn s) cs cs'

variable {cs cs' : List Charge} {c c' : Charge} {p : Nat}

theorem goOn_refl (cs : List Charge) : GoOn s cs cs := List.forall₂_same.mpr fun _ _ => .refl

theorem goOn_set (hc : cs[p]? = some c) (h : c.GoesOn s c') : GoOn s cs (cs.set p c') := by
  induction cs generalizing p with
  | nil => simp at hc
  | cons d cs ih =>
    cases p with
    | zero =>
      obtain rfl : d = c := by simpa using hc
      exact .cons h (goOn_refl cs)
    | succ p => exact .cons .refl (ih (by simpa using hc))

theorem GoOn.ids (h : GoOn s cs cs') : cs'.map Charge.id = cs.map Charge.id := by
  induction h with
  | nil => rfl
  | cons hc _ ih => rw [List.map_cons, List.map_cons, hc.id, ih]

theorem GoOn.get (h : GoOn s cs cs') (hc : cs[p]? = some c) :
    ∃ c', cs'[p]? = some c' ∧ c.GoesOn s c' := by
  induction h generalizing p with
  | nil => simp at hc
  | cons hd _ ih =>
    cases p with
    | zero =>
      obtain rfl := by simpa using hc
      exact ⟨_, rfl, hd⟩
    | succ p => exact ih (by simpa using hc)

theorem GoOn.begun (h : GoOn s cs cs') (hcs : ∀ c ∈ cs, c.Begun s) : ∀ c ∈ cs', c.Begun s := by
  induction h with
  | nil => exact hcs
  | cons hd _ ih =>
    obtain ⟨hfirst, hrest⟩ := List.forall_mem_cons.mp hcs
    exact List.forall_mem_cons.mpr ⟨hfirst.reaches hd.reaches, ih hrest⟩

end Vigil
