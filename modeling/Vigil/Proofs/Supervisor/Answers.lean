import Vigil.Proofs.Supervisor.Calls

/-!
# Calls are answered

A call waits for nothing but watches: for room among the commands of one, or for its end. So once the watches
that the call in hand still has to do with have ended, going on with it leads to its answer.
-/

namespace Vigil.Supervisor

variable {s : Settings} {g g' : Supervisor} {call : SupervisorCall} {places left : List Nat}
variable {k : WatchCommand} {p : Nat} {seen : Option Health} {outcomes : List WatchOutcome}
variable {finishing : Bool}

def HaveEnded (g : Supervisor) (places : List Nat) : Prop :=
  ∀ p ∈ places, ∃ c, g.charges[p]? = some c ∧ c.isFinished

/-- The watches that a call at this stage still has to do with. -/
def concerned (g : Supervisor) : CallStage → List Nat
  | .resetting place => [place]
  | .sending left false => left.map (·.1)
  | .sending left true => left.map (·.1) ++ g.register.handles
  | .joining left .. => left

def Answered (s : Settings) (g : Supervisor) (call : SupervisorCall) : Prop :=
  ∃ n a, (play s g (List.replicate n .proceed)).inHand = none ∧
    (play s g (List.replicate n .proceed)).history = g.history ++ [(call, a)]

theorem play_proceed (h : g.proceed? = some g') (n : Nat) :
    play s g (List.replicate (n + 1) .proceed) = play s g' (List.replicate n .proceed) := by
  simp [play, List.replicate_succ, step, h]

theorem answered_now {a : SupervisorAnswer} (h : g.proceed? = some (g'.reply call a))
    (hsame : g'.history = g.history) : Answered s g call :=
  ⟨1, a, by rw [play_proceed h]; rfl, by rw [play_proceed h, ← hsame]; rfl⟩

theorem answered_of_proceed (h : g.proceed? = some g') (hsame : g'.history = g.history)
    (hg' : Answered s g' call) : Answered s g call := by
  obtain ⟨n, a, hidle, hhistory⟩ := hg'
  rw [hsame, ← play_proceed h] at hhistory
  rw [← play_proceed h] at hidle
  exact ⟨n + 1, a, hidle, hhistory⟩

theorem HaveEnded.goOn {charges : List Charge} (h : g.HaveEnded places) (hgo : GoOn s g.charges charges) :
    HaveEnded { g with charges } places := by
  intro p hp
  obtain ⟨c, hc, hf⟩ := h p hp
  obtain ⟨c', hc', hlater⟩ := hgo.get hc
  exact ⟨c', hc', hlater.isFinished hf⟩

theorem answered_joining (hhand : g.inHand = some (call, .joining left seen outcomes finishing))
    (hended : g.HaveEnded left) : Answered s g call := by
  induction left generalizing g seen outcomes with
  | nil =>
    cases finishing with
    | true =>
      have hnext : g.proceed? = some (g.reply call (.outcomes outcomes)) := by simp [proceed?, hhand]
      exact answered_now hnext rfl
    | false =>
      have hnext : g.proceed? = some (g.reply call (.outcome outcomes.head?)) := by
        simp [proceed?, hhand]
      exact answered_now hnext rfl
  | cons p left ih =>
    obtain ⟨⟨c, hc, hf⟩, hrest⟩ := List.forall_mem_cons.mp hended
    -- Before the outcome is taken the state is looked at, unless it has been already.
    have hseen {v : Supervisor} {health : Health} (hcharges : v.charges = g.charges)
        (hhand : v.inHand = some (call, .joining (p :: left) (some health) outcomes finishing)) :
        Answered s v call := by
      have hout : v.outcome? p health = some (c.outcome health) := by simp [outcome?, hcharges, hc, hf]
      have hnext : v.proceed? = some { v with
          inHand := some (call, .joining left none (outcomes ++ [c.outcome health]) finishing) } := by
        simp [proceed?, hhand, hout]
      refine answered_of_proceed hnext rfl (ih rfl fun q hq => ?_)
      obtain ⟨d, hd⟩ := hrest q hq
      exact ⟨d, hcharges ▸ hd⟩
    cases seen with
    | some health => exact hseen rfl hhand
    | none =>
      have hnext : g.proceed? = some { g with
          inHand := some (call,
            .joining (p :: left) (some ((g.publishedAt p).getD .healthy)) outcomes finishing) } := by
        simp [proceed?, hhand]
      exact answered_of_proceed hnext rfl (hseen rfl rfl)

theorem send_ended (h : g.HaveEnded [p]) : g.send p k = (g, some false) := by
  obtain ⟨c, hc, hf⟩ := h p List.mem_cons_self
  simp [send, hc, hf]

theorem escalate_again (h : g.escalate? p k = some g') : g'.escalate? p k = none := by
  unfold escalate? at h
  split at h
  · rename_i c hc
    split at h
    · cases h
      simp [escalate?, (List.getElem?_eq_some_iff.mp hc).1]
    · cases h
  · cases h

theorem answered_sending {left : List (Nat × WatchCommand)}
    (hhand : g.inHand = some (call, .sending left finishing))
    (hended : g.HaveEnded (g.concerned (.sending left finishing))) : Answered s g call := by
  induction left generalizing g with
  | nil =>
    cases finishing with
    | true =>
      have hnext : g.proceed? = some { g with
          inHand := some (call, .joining g.register.handles none [] true) } := by
        simp [proceed?, hhand]
      exact answered_of_proceed hnext rfl (answered_joining rfl hended)
    | false =>
      have hnext : g.proceed? = some (g.reply call .nothing) := by simp [proceed?, hhand]
      exact answered_now hnext rfl
  | cons first left ih =>
    obtain ⟨p, k⟩ := first
    have hsent {v : Supervisor} (hhand : v.inHand = some (call, .sending ((p, k) :: left) finishing))
        (hended : v.HaveEnded (v.concerned (.sending ((p, k) :: left) finishing)))
        (hno : v.escalate? p k = none) : Answered s v call := by
      have hfirst : v.HaveEnded [p] := by
        intro q hq
        obtain rfl := List.mem_singleton.mp hq
        exact hended q (by cases finishing <;> simp [concerned])
      have hnext : v.proceed? = some { v with inHand := some (call, .sending left finishing) } := by
        simp [proceed?, hhand, hno, send_ended hfirst]
      refine answered_of_proceed hnext rfl (ih rfl fun q hq => hended q ?_)
      cases finishing with
      | true => exact List.mem_cons_of_mem _ hq
      | false => exact List.mem_cons_of_mem _ hq
    cases hescalate : g.escalate? p k with
    | none => exact hsent hhand hended hescalate
    | some v =>
      have hnext : g.proceed? = some v := by simp [proceed?, hhand, hescalate]
      have hno := escalate_again hescalate
      obtain ⟨charges, hgo, rfl⟩ := escalate_goesOn (s := s) hescalate
      exact answered_of_proceed hnext rfl (hsent hhand (hended.goOn hgo) hno)

/-- Once all watches have ended that the call in hand has to do with, it comes to be answered. -/
theorem answered_of_ended {stage : CallStage} (hhand : g.inHand = some (call, stage))
    (hended : g.HaveEnded (g.concerned stage)) : Answered s g call := by
  cases stage with
  | resetting place =>
    have hnext : g.proceed? = some (g.reply call (.accepted false)) := by
      simp [proceed?, hhand, send_ended hended]
    exact answered_now hnext rfl
  | sending => exact answered_sending hhand hended
  | joining => exact answered_joining hhand hended

end Vigil.Supervisor
