import Mathlib.Data.List.DropRight
import Vigil.Proofs.Health.Ratchet

/-!
# Blocks of evidence

An assessor remembers since when it has seen a loop and since when a sustained load. What these times mean
is in the history of its calls: consecutive observations with a property form a block, which an observation
without it breaks, and so does a reset. `Assessor.path_timed`: in a state that is not terminal, a timer runs
since the first observation of the block that the history ends with, and stands still if there is none.
-/

namespace Vigil

def Observation.loops (obs : Observation) : Bool := obs.repetition.isLoopEvidence

def Observation.strains (obs : Observation) : Bool := obs.resources.cpu.verdict = .sustained

namespace Assessor

variable {s : Settings} {a b : Assessor} {obs e : Observation} {c : Call} {calls more : List Call}
  {on : Observation → Bool} {id : ProcessId}

-- ---------------------------------------------------------------------------
-- Blocks
-- ---------------------------------------------------------------------------

def Call.observation? : Call → Option Observation
  | .observe obs => some obs
  | .reset | .abandon _ => none

def Call.keeps (on : Observation → Bool) : Call → Bool
  | .observe obs => on obs
  | .reset => false
  | .abandon _ => true

/-- The first observation of the block that the calls end with, if they do: the maximal block of
consecutive observations that have the property `on`. -/
def blockStart (on : Observation → Bool) (calls : List Call) : Option Observation :=
  (calls.rtakeWhile (Call.keeps on)).findSome? Call.observation?

theorem blockStart_snoc (on : Observation → Bool) (calls : List Call) (c : Call) :
    blockStart on (calls ++ [c]) =
      if c.keeps on then (blockStart on calls).or c.observation? else none := by
  unfold blockStart
  rw [List.rtakeWhile_concat]
  split
  · rw [List.findSome?_append]
    cases c <;> rfl
  · rfl

theorem blockStart_observe (h : on obs) :
    blockStart on (calls ++ [.observe obs]) = some ((blockStart on calls).getD obs) := by
  rw [blockStart_snoc, if_pos (show (Call.observe obs).keeps on from h)]
  cases blockStart on calls <;> rfl

theorem blockStart_eq_none (h : ¬ on obs) : blockStart on (calls ++ [.observe obs]) = none := by
  rw [blockStart_snoc, if_neg (show ¬ (Call.observe obs).keeps on from h)]

theorem blockStart_append (h : blockStart on calls = some e) (hmore : ∀ c ∈ more, c.keeps on) :
    blockStart on (calls ++ more) = some e := by
  induction more using List.reverseRecOn with
  | nil => simpa using h
  | append_singleton more c ih =>
    have hlast : c.keeps on := hmore c (by simp)
    have hbefore := ih fun c hc => hmore c (by simp [hc])
    rw [← List.append_assoc, blockStart_snoc, if_pos hlast, hbefore]
    rfl

theorem observe_mem_of_blockStart (h : e ∈ blockStart on calls) : .observe e ∈ calls := by
  obtain ⟨c, hc, he⟩ := List.exists_of_findSome?_eq_some h
  cases c with
  | observe obs =>
    cases he
    exact (List.rtakeWhile_suffix _ _).mem hc
  | reset | abandon => cases he

-- ---------------------------------------------------------------------------
-- Timers
-- ---------------------------------------------------------------------------

/-- The timers of an assessor run since the blocks began that the calls end with. -/
structure Timed (calls : List Call) (a : Assessor) : Prop where
  loop : a.loopSince = (blockStart Observation.loops calls).map (·.time)
  load : a.sustainedSince = (blockStart Observation.strains calls).map (·.time)

theorem timer_blockStart (on : Observation → Bool) (calls : List Call) (obs : Observation) :
    timer (on obs) obs.time ((blockStart on calls).map (·.time)) =
      (blockStart on (calls ++ [.observe obs])).map (·.time) := by
  by_cases h : on obs
  · rw [blockStart_observe h, timer, if_pos h]
    cases blockStart on calls <;> rfl
  · rw [blockStart_eq_none h, timer, if_neg h]
    rfl

theorem Timed.noteTimers (h : Timed calls a) (obs : Observation) :
    Timed (calls ++ [.observe obs]) (a.noteTimers obs) where
  loop := by
    rw [← timer_blockStart, ← h.loop]
    rfl
  load := by
    rw [← timer_blockStart, ← h.load]
    rfl

theorem not_terminal_of_call (hc : call s a c = .ok (b, out)) (hb : ¬ b.state.isTerminal) :
    ¬ a.state.isTerminal := by
  intro ht
  rw [call_terminal ht] at hc
  cases hc
  exact hb ht

theorem call_timed (h : Timed calls a) (hc : call s a c = .ok (b, out)) (hb : ¬ b.state.isTerminal) :
    Timed (calls ++ [c]) b := by
  have ht := not_terminal_of_call hc hb
  cases c with
  | observe obs =>
    obtain ⟨_, rfl⟩ := observe_eq ht hc
    have hnoted := h.noteTimers obs
    exact ⟨hnoted.loop, hnoted.load⟩
  | reset =>
    have hr := Except.ok.inj hc
    rw [reset, if_neg ht] at hr
    rw [enter_eq hr]
    have hbreaks (on : Observation → Bool) : blockStart on (calls ++ [.reset]) = none := by
      rw [blockStart_snoc]
      rfl
    exact ⟨by rw [hbreaks]; rfl, by rw [hbreaks]; rfl⟩
  | abandon reason =>
    have hr := Except.ok.inj hc
    rw [abandon, if_neg ht] at hr
    rw [enter_state hr] at hb
    exact absurd rfl hb

theorem path_timed (hp : Path (call s) { process := id } ts a) (ht : ¬ a.state.isTerminal) :
    Timed (ts.map (·.event)) a := by
  induction hp with
  | nil => exact ⟨rfl, rfl⟩
  | @snoc ts t _ hof ih =>
    rw [List.map_append]
    exact call_timed (ih (not_terminal_of_call hof ht)) hof ht

theorem run_timed (h : run (call s) { process := id } calls = .ok a) (ht : ¬ a.state.isTerminal) :
    Timed calls a := by
  have htimed := path_timed (path_of_run h) ht
  rwa [events_of_run h] at htimed

end Assessor

end Vigil
