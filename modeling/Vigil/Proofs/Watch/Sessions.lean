import Vigil.Proofs.Watch.InStep

/-!
# What one event can do to a session

`Session.Move` lists everything that a step of a session can come to, and `Session.step_move` reads a
step as one of them. Whatever the watch serves, it serves through `Session.took`.
-/

namespace Vigil

theorem Watch.tick_of_error {w : Watch} {e : WatchEvent} (h : w.step s e = .error x) :
    w.phase = .serving ∧ ∃ now group, e = .tick now group := by
  cases hl : w.listens e with
  | false => simp [step, hl] at h
  | true =>
    simp only [step, hl, ↓reduceIte] at h
    cases hp : w.phase with
    | serving =>
      rw [hp] at h
      refine ⟨rfl, ?_⟩
      cases e with
      | tick now group => exact ⟨now, group, rfl⟩
      | sampleFailed err => cases err <;> cases h
      | _ => cases h
    | reaping | draining | finished =>
      rw [hp] at h
      cases e <;> cases h

namespace Session

variable {s : Settings} {n n' : Session}

-- ---------------------------------------------------------------------------
-- Effects
-- ---------------------------------------------------------------------------

@[simp] theorem diagnosesOf_diagnosed (o : Option Diagnosis) :
    diagnosesOf (o.toList.map (.diagnosed now)) = o.toList.map (now, ·) := by
  cases o <;> rfl

@[simp] theorem signalsOf_diagnosed (o : Option Diagnosis) :
    signalsOf (o.toList.map (.diagnosed now)) = [] := by
  cases o <;> rfl

-- ---------------------------------------------------------------------------
-- A step
-- ---------------------------------------------------------------------------

def took (n : Session) (w : Watch) (fx : List WatchEffect) : Session :=
  { n with
    watch := w
    unsent := diagnosesOf fx
    emitted := n.emitted ++ diagnosesOf fx
    signals := n.signals ++ signalsOf fx }

theorem serve_eq_ok {e : WatchEvent} (hu : n.unsent = []) (h : n.serve s e = .ok n') :
    ∃ w fx, n.watch.step s e = .ok (w, fx) ∧ n' = n.took w fx := by
  simp only [serve, hu, List.isEmpty_nil, ↓reduceIte] at h
  obtain ⟨⟨w, fx⟩, hstep, rfl⟩ := map_ok.mp h
  exact ⟨w, fx, hstep, rfl⟩

theorem serve_of_unsent {e : WatchEvent} (hu : n.unsent ≠ []) : n.serve s e = .ok n := by
  simp [serve, hu]

theorem signal_eq {a : Attendance} (hl : a.listening) :
    a.signal sig now = ({ a with interrupts := (a.interrupts.receive sig now).1 },
      some (a.interrupts.receive sig now).2) :=
  if_pos hl

inductive Move (s : Settings) (n : Session) : SessionEvent → Session → Prop
  /-- Nothing comes of the event. A signal that somebody listens to, and a turn of a reap once all
  diagnoses are sent, are never lost. -/
  | idle {e} : (∀ sig time, e = .signal sig time → n.attendance.listening = false) →
      (∀ time group, e = .reapTurn time group → n.unsent ≠ []) → Move s n e n
  | fed {e w fx} : e.isFeed → n.unsent = [] → n.watch.step s e = .ok (w, fx) →
      Move s n (.feed e) (n.took w fx)
  | obeyed {r rest w fx} : n.watch.phase = .serving → n.unsent = [] → n.requests = r :: rest →
      n.watch.step s (.shutdown (r = StopRequest.immediate)) = .ok (w, fx) →
      Move s n .obey ({ n with requests := rest }.took w fx)
  | turned {now group w fx} : n.unsent = [] → n.watch.step s (.turn now group n.escalated) = .ok (w, fx) →
      Move s n (.reapTurn now group) (n.took w fx)
  | sent {d rest} : n.unsent = d :: rest →
      Move s n .send { n with unsent := rest, attendance := n.attendance.deliver d }
  | signalled {sig now} : n.attendance.listening →
      Move s n (.signal sig now)
        { n with
          attendance := { n.attendance with interrupts := (n.attendance.interrupts.receive sig now).1 }
          escalated := n.escalated || (n.attendance.interrupts.receive sig now).2 = StopRequest.immediate
          requests := n.requests ++ [(n.attendance.interrupts.receive sig now).2] }
  | received : Move s n .receive { n with attendance := n.attendance.receive }
  | left : n.watch.published.isTerminal → Move s n .leave { n with attendance := n.attendance.leave }
  | collected : n.watch.phase = .finished → n.unsent = [] → n.attendance.listening = false →
      Move s n .collect { n with attendance := n.attendance.collect }

variable {e : SessionEvent}

theorem step_move (h : n.step s e = .ok n') : Move s n e n' := by
  cases e with
  | feed e =>
    simp only [step] at h
    split at h
    · rename_i hf
      by_cases hu : n.unsent = []
      · obtain ⟨w, fx, hw, rfl⟩ := serve_eq_ok hu h
        exact .fed hf hu hw
      · cases (serve_of_unsent hu).symm.trans h
        exact .idle (by simp) (by simp)
    · cases h
      exact .idle (by simp) (by simp)
  | obey =>
    simp only [step] at h
    split at h
    · rename_i r rest hp hu hr
      obtain ⟨w, fx, hw, rfl⟩ := serve_eq_ok (n := { n with requests := rest }) hu h
      exact .obeyed hp hu hr hw
    · cases h
      exact .idle (by simp) (by simp)
  | reapTurn now group =>
    by_cases hu : n.unsent = []
    · obtain ⟨w, fx, hw, rfl⟩ := serve_eq_ok hu h
      exact .turned hu hw
    · cases (serve_of_unsent hu).symm.trans h
      exact .idle (by simp) (fun _ _ _ => hu)
  | send =>
    simp only [step] at h
    split at h
    · rename_i hu
      cases h
      exact .sent hu
    · cases h
      exact .idle (by simp) (by simp)
  | signal sig now =>
    cases hl : n.attendance.listening with
    | true =>
      rw [step, signal_eq hl] at h
      cases h
      exact .signalled hl
    | false =>
      simp only [step, Attendance.signal, hl, Bool.false_eq_true, ↓reduceIte] at h
      cases h
      exact .idle (fun _ _ _ => hl) (by simp)
  | receive => cases h; exact .received
  | leave =>
    simp only [step, Except.ok.injEq] at h
    split at h
    · rename_i hpub
      subst h
      exact .left hpub
    · subst h
      exact .idle (by simp) (by simp)
  | collect =>
    simp only [step, Except.ok.injEq] at h
    split at h
    · rename_i hend
      simp only [Bool.and_eq_true, decide_eq_true_eq, List.isEmpty_iff, Bool.not_eq_true'] at hend
      subst h
      exact .collected hend.1.1 hend.1.2 hend.2
    · subst h
      exact .idle (by simp) (by simp)

theorem serve_error {e : WatchEvent} (h : n.serve s e = .error x) :
    n.unsent = [] ∧ n.watch.step s e = .error x := by
  unfold serve at h
  split at h
  · rename_i hu
    exact ⟨List.isEmpty_iff.mp hu, map_error.mp h⟩
  · cases h

theorem step_error (h : n.step s e = .error x) :
    n.unsent = [] ∧ n.watch.phase = .serving ∧ ∃ now group, e = .feed (.tick now group) := by
  cases e with
  | feed e =>
    simp only [step] at h
    split at h
    · obtain ⟨hu, hw⟩ := serve_error h
      obtain ⟨hp, now, group, rfl⟩ := Watch.tick_of_error hw
      exact ⟨hu, hp, now, group, rfl⟩
    · cases h
  | obey =>
    simp only [step] at h
    split at h
    · obtain ⟨-, now, group, he⟩ := Watch.tick_of_error (serve_error h).2
      cases he
    · cases h
  | reapTurn now group =>
    obtain ⟨-, now', group', he⟩ := Watch.tick_of_error (serve_error h).2
    cases he
  | send =>
    simp only [step] at h
    split at h <;> cases h
  | signal sig now =>
    simp only [step] at h
    split at h <;> cases h
  | receive | leave | collect => cases h

end Session

-- ---------------------------------------------------------------------------
-- Sittings
-- ---------------------------------------------------------------------------

/-- A session that goes on when its watch breaks down. A broken watch serves and sends nothing any more,
and to its attendant it has come to its end. -/
structure Sitting extends Session where
  broken : Bool

namespace Sitting

def start (s : Settings) (id : ProcessId) (now : Nat) : Sitting :=
  { toSession := .start s id now, broken := !Watch.canStart s }

def proceed (s : Settings) (g : Sitting) (e : SessionEvent) : Sitting :=
  match g.toSession.step s e with
  | .ok n => { g with toSession := n }
  | .error _ => { g with broken := true }

def step (s : Settings) (g : Sitting) (e : SessionEvent) : Sitting :=
  match g.broken, e with
  | true, .feed _ | true, .obey | true, .reapTurn .. | true, .send => g
  | true, .leave => { g with attendance := g.attendance.leave }
  | true, .collect => if g.attendance.listening then g else { g with attendance := g.attendance.collect }
  | _, e => g.proceed s e

def advance (s : Settings) (g : Sitting) (e : SessionEvent) : Except Empty (Sitting × Unit) :=
  .ok (g.step s e, ())

abbrev SittingStep := Step Sitting SessionEvent Unit

inductive Move (s : Settings) (g : Sitting) : SessionEvent → Sitting → Prop
  | moved {e n} : Session.Move s g.toSession e n →
      (g.broken → e = .receive ∨ ∃ sig now, e = .signal sig now) →
      Move s g e { g with toSession := n }
  | broke {now group} : g.watch.phase = .serving → g.unsent = [] →
      Move s g (.feed (.tick now group)) { g with broken := true }
  | dead {e} : g.broken → (∀ sig now, e ≠ .signal sig now) → Move s g e g
  | deserted : g.broken → Move s g .leave { g with attendance := g.attendance.leave }
  | collected : g.broken → g.attendance.listening = false →
      Move s g .collect { g with attendance := g.attendance.collect }

variable {s : Settings} {g : Sitting} {e : SessionEvent}

theorem proceed_move (h : g.broken → e = .receive ∨ ∃ sig now, e = .signal sig now) :
    Move s g e (g.proceed s e) := by
  unfold proceed
  split
  · rename_i hn
    exact .moved (Session.step_move hn) h
  · rename_i hx
    obtain ⟨hu, hp, now, group, rfl⟩ := Session.step_error hx
    exact .broke hp hu

theorem step_of_whole (hb : g.broken = false) : g.step s e = g.proceed s e := by
  simp [step, hb]

theorem step_move (s : Settings) (g : Sitting) (e : SessionEvent) : Move s g e (g.step s e) := by
  cases hb : g.broken with
  | false =>
    rw [step_of_whole hb]
    exact proceed_move (by simp [hb])
  | true =>
    unfold step
    split
    · exact .dead hb (by simp)
    · exact .dead hb (by simp)
    · exact .dead hb (by simp)
    · exact .dead hb (by simp)
    · exact .deserted hb
    · split
      · exact .dead hb (by simp)
      · rename_i hl
        exact .collected hb (by simpa using hl)
    · rename_i e _ _ hfeed hobey hturn hsend hleave hcollect
      refine proceed_move fun _ => ?_
      cases e with
      | feed f => exact (hfeed f hb rfl).elim
      | obey => exact (hobey hb rfl).elim
      | reapTurn now group => exact (hturn now group hb rfl).elim
      | send => exact (hsend hb rfl).elim
      | leave => exact (hleave hb rfl).elim
      | collect => exact (hcollect hb rfl).elim
      | receive => exact .inl rfl
      | signal sig now => exact .inr ⟨sig, now, rfl⟩

end Sitting
end Vigil
