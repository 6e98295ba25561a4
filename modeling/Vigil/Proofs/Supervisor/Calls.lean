import Vigil.Proofs.Supervisor.Charges

/-!
# What one step of a supervisor can come to

`Supervisor.Move` lists what a step can do to the register, the call in hand and the answers, while the
workloads go on; `Supervisor.step_move` reads every step as one of these.
-/

namespace Vigil.Supervisor

inductive Move (s : Settings) (g : Supervisor) : Supervisor → Prop
  | goneOn {charges} : GoOn s g.charges charges → Move s g { g with charges }
  | tracked {id now charges} : g.inHand = none → GoOn s g.charges charges →
      Move s g ({ g with
        charges := charges ++ [Charge.start s id now]
        register := g.register.insert id g.charges.length }.reply (.track (.ok id) now) (.tracked id))
  | refused {e now} : g.inHand = none → Move s g (g.reply (.track (.error e) now) (.refused e))
  | told {id} : g.inHand = none →
      Move s g (g.reply (.state id) (.state ((g.register.find? id).bind g.publishedAt)))
  | unknown {id} : g.inHand = none → Move s g (g.reply (.reset id) (.accepted false))
  | resetting {id place} : g.inHand = none →
      Move s g { g with inHand := some (.reset id, .resetting place) }
  | reset {call place charges ok} : g.inHand = some (call, .resetting place) →
      GoOn s g.charges charges → Move s g ({ g with charges }.reply call (.accepted ok))
  | shuttingDown {immediate left} : g.inHand = none →
      Move s g { g with inHand := some (.requestShutdown immediate, .sending left false) }
  | finishing {immediate left} : g.inHand = none →
      Move s g { g with inHand := some (.shutdown immediate, .sending left true) }
  | sent {call first left finishing charges} :
      g.inHand = some (call, .sending (first :: left) finishing) → GoOn s g.charges charges →
      Move s g { g with charges, inHand := some (call, .sending left finishing) }
  | shutDown {call} : g.inHand = some (call, .sending [] false) → Move s g (g.reply call .nothing)
  | joining {call} : g.inHand = some (call, .sending [] true) →
      Move s g { g with inHand := some (call, .joining g.register.handles none [] true) }
  | absent {id} : g.inHand = none → g.register.find? id = none →
      Move s g (g.reply (.wait id) (.outcome none))
  | waiting {id place} : g.inHand = none → g.register.find? id = some place →
      Move s g { g with
        register := g.register.erase id
        inHand := some (.wait id, .joining [place] none [] false) }
  | looked {call place left outcomes finishing seen} :
      g.inHand = some (call, .joining (place :: left) none outcomes finishing) →
      Move s g { g with inHand := some (call, .joining (place :: left) (some seen) outcomes finishing) }
  | joined {call place left seen outcomes finishing o} :
      g.inHand = some (call, .joining (place :: left) (some seen) outcomes finishing) →
      g.outcome? place seen = some o →
      Move s g { g with inHand := some (call, .joining left none (outcomes ++ [o]) finishing) }
  | waited {call seen outcomes} : g.inHand = some (call, .joining [] seen outcomes false) →
      Move s g (g.reply call (.outcome outcomes.head?))
  | finished {call seen outcomes} : g.inHand = some (call, .joining [] seen outcomes true) →
      Move s g (g.reply call (.outcomes outcomes))

variable {s : Settings} {g g' : Supervisor} {c : SupervisorCall} {k : WatchCommand} {p : Nat}

theorem alter_goesOn {f : Charge → Charge} (hf : ∀ c : Charge, ¬ c.isFinished → c.GoesOn s (f c)) :
    ∃ charges, GoOn s g.charges charges ∧ g.alter p f = { g with charges } := by
  unfold alter
  split
  · rename_i c hc
    split
    · exact ⟨g.charges, goOn_refl _, rfl⟩
    · rename_i hgoing
      exact ⟨_, goOn_set hc (hf c hgoing), rfl⟩
  · exact ⟨g.charges, goOn_refl _, rfl⟩

theorem file_eq (g : Supervisor) (s : Settings) (id : ProcessId) (now : Nat) :
    ∃ charges, GoOn s g.charges charges ∧ g.file (.start s id now) = { g with
      charges := charges ++ [Charge.start s id now]
      register := g.register.insert id g.charges.length } := by
  unfold file
  split
  · rename_i displaced _
    obtain ⟨charges, hgo, he⟩ := alter_goesOn (s := s) (g := g) (p := displaced)
      (f := fun c => { c with commandsEnded := true }) fun c _ => .of_same rfl rfl
    exact ⟨charges, hgo, by rw [endCommands, he]; rfl⟩
  · exact ⟨g.charges, goOn_refl _, rfl⟩

theorem send_goesOn (h : g.send p k = (g', ok)) :
    ∃ charges, GoOn s g.charges charges ∧ g' = { g with charges } := by
  unfold send at h
  split at h
  · cases h
    exact ⟨g.charges, goOn_refl _, rfl⟩
  · rename_i c hc
    split at h
    · cases h
      exact ⟨g.charges, goOn_refl _, rfl⟩
    · split at h
      · cases h
        refine ⟨_, goOn_set hc ?_, rfl⟩
        exact .of_same rfl rfl
      · cases h
        exact ⟨g.charges, goOn_refl _, rfl⟩

theorem escalate_goesOn (h : g.escalate? p k = some g') :
    ∃ charges, GoOn s g.charges charges ∧ g' = { g with charges } := by
  unfold escalate? at h
  split at h
  · rename_i c hc
    split at h
    · cases h
      refine ⟨_, goOn_set hc ?_, rfl⟩
      exact .of_same rfl rfl
    · cases h
  · cases h

theorem begin_move (hidle : g.inHand = none) (c : SupervisorCall) : Move s g (g.begin s c) := by
  cases c with
  | track launched now =>
    cases launched with
    | error e => exact .refused hidle
    | ok id =>
      obtain ⟨charges, hgo, hfile⟩ := file_eq g s id now
      rw [begin, hfile]
      exact .tracked hidle hgo
  | state id => exact .told hidle
  | reset id =>
    simp only [begin]
    split
    · exact .resetting hidle
    · exact .unknown hidle
  | requestShutdown immediate => exact .shuttingDown hidle
  | shutdown immediate => exact .finishing hidle
  | wait id =>
    simp only [begin]
    split
    · rename_i hfind
      exact .waiting hidle hfind
    · rename_i hfind
      exact .absent hidle hfind

theorem proceed_move (h : g.proceed? = some g') : Move s g g' := by
  unfold proceed? at h
  split at h
  · cases h
  · rename_i hhand
    split at h
    · rename_i hsend
      cases h
      obtain ⟨charges, hgo, rfl⟩ := send_goesOn (s := s) hsend
      exact .reset hhand hgo
    · cases h
  · rename_i hhand
    cases h
    exact .shutDown hhand
  · rename_i hhand
    cases h
    exact .joining hhand
  · rename_i hhand
    rcases Option.or_eq_some_iff.mp h with h | ⟨-, h⟩
    · obtain ⟨charges, hgo, rfl⟩ := escalate_goesOn (s := s) h
      exact .goneOn hgo
    · split at h
      · rename_i hsend
        cases h
        obtain ⟨charges, hgo, rfl⟩ := send_goesOn (s := s) hsend
        exact .sent hhand hgo
      · cases h
  · rename_i hhand
    cases h
    exact .finished hhand
  · rename_i hhand
    cases h
    exact .waited hhand
  · rename_i hhand
    cases h
    exact .looked hhand
  · rename_i hhand
    obtain ⟨o, ho, rfl⟩ := Option.map_eq_some_iff.mp h
    exact .joined hhand ho

/-- Going on with a call begins no workload. -/
theorem proceed_goOn (h : g.proceed? = some g') : GoOn s g.charges g'.charges := by
  have hhand : g.inHand ≠ none := by
    intro hnone
    simp [proceed?, hnone] at h
  cases proceed_move (s := s) h with
  | goneOn hgo | reset _ hgo | sent _ hgo => exact hgo
  | tracked hidle => exact absurd hidle hhand
  | _ => exact goOn_refl _

theorem step_move (s : Settings) (g : Supervisor) (e : SupervisorEvent) : Move s g (g.step s e) := by
  cases e with
  | call c =>
    cases hhand : g.inHand with
    | none =>
      simp only [step, hhand, Option.isSome_none, Bool.false_eq_true, ↓reduceIte]
      exact begin_move hhand c
    | some d =>
      simp only [step, hhand, Option.isSome_some, ↓reduceIte]
      exact .goneOn (goOn_refl _)
  | proceed =>
    cases hnext : g.proceed? with
    | none =>
      simp only [step, hnext, Option.getD_none]
      exact .goneOn (goOn_refl _)
    | some v =>
      simp only [step, hnext, Option.getD_some]
      exact proceed_move hnext
  | within place e =>
    obtain ⟨charges, hgo, he⟩ := alter_goesOn (g := g) (p := place) fun c hc => c.step_goesOn (s := s) hc e
    rw [step, he]
    exact .goneOn hgo
  | letGo =>
    refine .goneOn (List.forall₂_map_right_iff.mpr (List.forall₂_same.mpr fun c _ => ?_))
    exact .of_same rfl rfl

end Vigil.Supervisor
