import Vigil.Proofs.Evidence.History
import Vigil.Proofs.Health.Detection

/-!
# Acts of a monitor

A tick drops old lines and then judges what is left. `Monitor.Act` has the two apart, beside the calls
themselves, so that a run of acts has lines, readings, prunes and judgements in any order. An act first
leaves the evidence `Monitor.evidence`, whatever the assessor holds, and then asks the assessor about it,
`Monitor.assess`.
-/

namespace Vigil.Monitor

-- ---------------------------------------------------------------------------
-- Acts
-- ---------------------------------------------------------------------------

/-- A call, or one of the two parts of a tick. -/
inductive Act where
  | call (c : Call)
  | prune (now : Nat)
  | judge (now : Nat) (liveness : Liveness)
  deriving DecidableEq

def judge (s : Settings) (m : Monitor) (now : Nat) (liveness : Liveness) :
    Except SpanOverflow (Monitor × Option Diagnosis) :=
  (m.assessor.observe s (observation s m.tracked now liveness)).map (conclude m.tracked now)

def act (s : Settings) (m : Monitor) : Act → Except SpanOverflow (Monitor × Option Diagnosis)
  | .call c => call s m c
  | .prune now => .ok ({ m with tracked := m.tracked.pruneLog now }, none)
  | .judge now liveness => m.judge s now liveness

abbrev ActStep := Step Monitor Act (Option Diagnosis)

namespace Act

def prunes? : Act → Option Nat
  | prune now | call (.tick now _) => some now
  | _ => none

def request? : Act → Option (Ring.Request (Fingerprint String))
  | call (.line time text) => some (.push time (.ofLine text))
  | call (.tick now _) | prune now => some (.prune now)
  | call (.reset _) => some .clear
  | _ => none

def IsReset : Act → Prop
  | call (.reset _) => True
  | _ => False

def time : Act → Nat
  | call (.line time _) | call (.reading time _ _) => time
  | call (.tick now _) | call (.reset now) | call (.abandon _ now) | prune now | judge now _ => now

end Act

-- ---------------------------------------------------------------------------
-- One act
-- ---------------------------------------------------------------------------

def evidence (tracked : Tracked) : Act → Tracked
  | .call (.line time text) => tracked.recordLine time (.of text)
  | .call (.reading time cpuPercent residentBytes) => tracked.recordSample time cpuPercent residentBytes
  | .call (.tick now _) | .prune now => tracked.pruneLog now
  | .call (.reset _) => tracked.clearLog
  | .call (.abandon ..) | .judge .. => tracked

/-- What an act makes of the assessor, given the evidence that it leaves. -/
def assess (s : Settings) (a : Assessor) (tracked : Tracked) :
    Act → Except SpanOverflow (Assessor × Option Diagnosis)
  | .call (.tick now liveness) | .judge now liveness => a.observe s (observation s tracked now liveness)
  | .call (.reset _) => .ok a.reset
  | .call (.abandon reason _) => .ok (a.abandon reason)
  | .call (.line ..) | .call (.reading ..) | .prune _ => .ok (a, none)

variable {s : Settings} {m m' : Monitor} {a : Assessor} {x : Act} {out : Option Diagnosis} {d : Diagnosis}
  {tracked : Tracked} {t : ActStep} {ts : List ActStep}

theorem act_eq (s : Settings) (m : Monitor) (x : Act) :
    act s m x = (assess s m.assessor (evidence m.tracked x) x).map
      (conclude (evidence m.tracked x) x.time) := by
  cases x with
  | call c => cases c <;> rfl
  | prune | judge => rfl

theorem logWindow_evidence (t : Tracked) (x : Act) :
    (evidence t x).logWindow = x.request?.elim t.logWindow t.logWindow.serve := by
  cases x with
  | call c =>
    cases c with
    | line time text =>
      by_cases ha : t.logWindow.accepts time
      · rw [evidence, Tracked.recordLine, if_pos ha]
        rfl
      · rw [evidence, Tracked.recordLine, if_neg ha]
        exact (Ring.push_refused (by simpa using ha)).symm
    | reading =>
      simp only [evidence, Tracked.recordSample]
      split <;> rfl
    | _ => rfl
  | prune | judge => rfl

theorem clear_logWindow_evidence (t : Tracked) (x : Act) :
    (evidence t x).logWindow.clear = t.logWindow.clear := by
  rw [logWindow_evidence]
  cases x.request? with
  | none => rfl
  | some q => exact Ring.clear_serve _ q

theorem ordered_evidence (h : tracked.logWindow.Ordered) (x : Act) :
    (evidence tracked x).logWindow.Ordered := by
  rw [logWindow_evidence]
  cases x.request? with
  | none => exact h
  | some q => exact h.serve q

theorem conclude_tracked (h : conclude tracked now r = (m', out)) :
    ∃ state lastTransition, m'.tracked = { tracked with state, lastTransition } := by
  obtain ⟨a, judged⟩ := r
  cases judged with
  | none => cases h; exact ⟨tracked.state, tracked.lastTransition, rfl⟩
  | some d => cases h; exact ⟨d.target, now, rfl⟩

theorem act_ok (h : act s m x = .ok (m', out)) :
    assess s m.assessor (evidence m.tracked x) x = .ok (m'.assessor, out) ∧
      ∃ state lastTransition, m'.tracked = { evidence m.tracked x with state, lastTransition } := by
  rw [act_eq] at h
  obtain ⟨judged, hassess, hconclude⟩ := map_ok.mp h
  rw [hassess, conclude_eq hconclude]
  exact ⟨rfl, conclude_tracked hconclude⟩

theorem assess_judged (h : assess s a tracked x = .ok r) : Assessor.Judged a r := by
  cases x with
  | call c =>
    cases c with
    | tick => exact Assessor.observe_judged h
    | reset => cases h; exact Assessor.reset_judged
    | abandon => cases h; exact Assessor.abandon_judged
    | line | reading => cases h; exact .stays rfl rfl
  | prune => cases h; exact .stays rfl rfl
  | judge => exact Assessor.observe_judged h

theorem act_process (h : act s m x = .ok (m', out)) : m'.assessor.process = m.assessor.process := by
  cases assess_judged (act_ok h).1 with
  | stays hp => exact hp
  | turns hp => exact hp

end Vigil.Monitor
