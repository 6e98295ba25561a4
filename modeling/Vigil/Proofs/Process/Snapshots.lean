import Mathlib.Algebra.BigOperators.Ring.Finset
import Vigil.Process.Meter
import Vigil.Proofs.Steps

/-!
# Looks at a process tree

A probe answers a look with a list of usages, or fails. `Meter.took`: what one look can come to.
`Meter.path_kept`: of all its looks a meter keeps the last snapshot that was taken and whether the process was
found gone, so its answers can be told from the history of the looks (`Meter.history_answered`).
-/

namespace Vigil

-- ---------------------------------------------------------------------------
-- Lists of usages
-- ---------------------------------------------------------------------------

namespace Usage

variable {u : Usage} {us : List Usage} {pid : Int}

def pids (us : List Usage) : Finset Int := (us.map (·.pid)).toFinset

def report? (us : List Usage) (pid : Int) : Option Nat :=
  (us.reverse.find? fun u => u.pid = pid).map (·.cpuTime)

def timeOf (us : List Usage) (pid : Int) : Nat := (report? us pid).getD 0

def totalTime (us : List Usage) : Nat := ∑ pid ∈ pids us, timeOf us pid

/-- The CPU time that the processes of a list have used beyond what was noted of them before. -/
def used (noted : Int → Nat) (us : List Usage) : Nat := ∑ pid ∈ pids us, (timeOf us pid - noted pid)

theorem pids_cons (u : Usage) (us : List Usage) : pids (u :: us) = insert u.pid (pids us) := by
  simp [pids]

theorem report?_cons (u : Usage) (us : List Usage) (pid : Int) :
    report? (u :: us) pid = (report? us pid).or (if u.pid = pid then some u.cpuTime else none) := by
  unfold report?
  rw [List.reverse_cons, List.find?_append, List.find?_singleton]
  cases us.reverse.find? fun u => u.pid = pid with
  | some _ => rfl
  | none => by_cases h : u.pid = pid <;> simp [h]

theorem mem_pids : pid ∈ pids us ↔ (report? us pid).isSome := by
  simp [pids, report?]

theorem timeOf_cons_of_mem (u : Usage) (h : pid ∈ pids us) : timeOf (u :: us) pid = timeOf us pid := by
  obtain ⟨n, hn⟩ := Option.isSome_iff_exists.mp (mem_pids.mp h)
  simp [timeOf, report?_cons, hn]

theorem timeOf_cons_self (h : u.pid ∉ pids us) : timeOf (u :: us) u.pid = u.cpuTime := by
  rw [mem_pids, Option.not_isSome_iff_eq_none] at h
  simp [timeOf, report?_cons, h]

end Usage

namespace Meter

open Usage (pids report? used totalResident)

section

variable {us : List Usage} {pid : Int}

theorem any_pid_iff : (us.any fun v => v.pid = pid) ↔ pid ∈ pids us := by
  simp [pids]

theorem timeOf_cpuTimes (us : List Usage) : timeOf (cpuTimes us) = Usage.timeOf us := by
  funext pid
  suffices hlookup : (cpuTimes us).lookup pid = report? us pid by rw [timeOf, hlookup, Usage.timeOf]
  induction us with
  | nil => rfl
  | cons u us ih =>
    rw [Usage.report?_cons, cpuTimes]
    by_cases hlater : u.pid ∈ pids us
    · rw [if_pos (any_pid_iff.mpr hlater), ih]
      cases hreport : report? us pid with
      | some n => rfl
      | none =>
        have hne : u.pid ≠ pid := by
          rintro rfl
          have hsome := Usage.mem_pids.mp hlater
          simp [hreport] at hsome
        simp [hne]
    · rw [if_neg (mt any_pid_iff.mp hlater), List.lookup_cons, ih]
      by_cases hpid : u.pid = pid
      · subst hpid
        rw [Usage.mem_pids, Option.not_isSome_iff_eq_none] at hlater
        simp [hlater]
      · simp [hpid, beq_eq_false_iff_ne.mpr (Ne.symm hpid)]

theorem busyTime_cpuTimes (noted : List (Int × Nat)) (us : List Usage) :
    busyTime noted (cpuTimes us) = used (timeOf noted) us := by
  induction us with
  | nil => rfl
  | cons u us ih =>
    have hsame : ∑ pid ∈ pids us, (Usage.timeOf (u :: us) pid - timeOf noted pid) = used (timeOf noted) us :=
      Finset.sum_congr rfl fun pid hpid => by rw [Usage.timeOf_cons_of_mem u hpid]
    rw [used, Usage.pids_cons, cpuTimes]
    by_cases hlater : u.pid ∈ pids us
    · rw [if_pos (any_pid_iff.mpr hlater), Finset.insert_eq_of_mem hlater, hsame, ih]
    · rw [if_neg (mt any_pid_iff.mp hlater), Finset.sum_insert hlater, hsame, Usage.timeOf_cons_self hlater, ← ih]
      rfl

end

-- ---------------------------------------------------------------------------
-- One look
-- ---------------------------------------------------------------------------

structure Look where
  time : Nat
  probe : TreeProbe

abbrev Answer := Except SampleError (Option Reading)

def look (m : Meter) (l : Look) : Except Empty (Meter × Answer) := .ok (m.sample l.time l.probe)

abbrev LookStep := Step Meter Look Answer

structure Snapshot where
  time : Nat
  members : List Usage

def Snapshot.baseline (s : Snapshot) : Baseline := ⟨s.time, cpuTimes s.members⟩

theorem timeOf_baseline (s : Snapshot) : timeOf s.baseline.cpuTimes = Usage.timeOf s.members :=
  timeOf_cpuTimes s.members

def noTimePassed : String := "no wall time elapsed since previous sample"

/-- What a look can come to. -/
inductive Took (m : Meter) (l : Look) : Meter → Answer → Prop where
  | ended (hg : m.gone) : Took m l m (.error .processGone)
  | foundGone (hg : m.gone = false) (hl : l.probe = .error .gone) :
    Took m l { m with gone := true } (.error .processGone)
  | unavailable (hg : m.gone = false) (hl : l.probe = .error (.unavailable reason)) :
    Took m l m (.error (.unavailable reason))
  | first (hg : m.gone = false) (hl : l.probe = .ok us) (hb : m.baseline = none) :
    Took m l { m with baseline := some (Snapshot.baseline ⟨l.time, us⟩) } (.ok none)
  | stalled (hg : m.gone = false) (hl : l.probe = .ok us) (hb : m.baseline = some last)
    (ht : l.time ≤ last.time) :
    Took m l { m with baseline := some (Snapshot.baseline ⟨l.time, us⟩) } (.error (.unavailable noTimePassed))
  | reading (hg : m.gone = false) (hl : l.probe = .ok us) (hb : m.baseline = some last)
    (ht : last.time < l.time) :
    Took m l { m with baseline := some (Snapshot.baseline ⟨l.time, us⟩) } (.ok (some
      { time := l.time, busy := used (timeOf last.cpuTimes) us, wall := l.time - last.time,
        residentBytes := totalResident us }))

theorem took (m : Meter) (l : Look) : Took m l (m.sample l.time l.probe).1 (m.sample l.time l.probe).2 := by
  unfold sample
  split
  · rename_i hg
    exact .ended hg
  · rename_i hg
    rw [Bool.not_eq_true] at hg
    split
    · rename_i hl
      exact .foundGone hg hl
    · rename_i hl
      exact .unavailable hg hl
    · rename_i us hl
      split
      · rename_i hb
        exact .first hg hl hb
      · rename_i last hb
        dsimp only
        rw [busyTime_cpuTimes]
        split
        · rename_i ht
          exact .stalled hg hl hb (Nat.le_of_sub_eq_zero ht)
        · rename_i ht
          exact .reading hg hl hb (Nat.lt_of_sub_ne_zero ht)

theorem took_of_step {t : LookStep} (ht : t.Of look) : Took t.before t.event t.after t.output := by
  have htook := took t.before t.event
  rw [Except.ok.inj ht] at htook
  exact htook

-- ---------------------------------------------------------------------------
-- The history of the looks
-- ---------------------------------------------------------------------------

def Look.findsGone (l : Look) : Bool :=
  match l.probe with
  | .error .gone => true
  | _ => false

def Look.snapshot? (l : Look) : Option Snapshot :=
  match l.probe with
  | .ok us => some ⟨l.time, us⟩
  | .error _ => none

/-- The snapshots that were taken. Once the process has been found gone, there are no more. -/
def snapshots (looks : List Look) : List Snapshot :=
  (looks.takeWhile fun l => !l.findsGone).filterMap Look.snapshot?

variable {looks before : List Look} {l : Look} {s : Snapshot} {ts : List LookStep} {t : LookStep} {m : Meter}

theorem snapshots_cons (l : Look) (looks : List Look) :
    snapshots (l :: looks) = if l.findsGone then [] else l.snapshot?.toList ++ snapshots looks := by
  unfold snapshots
  cases hg : l.findsGone with
  | true => simp [hg]
  | false => cases hs : l.snapshot? <;> simp [hg, hs]

theorem snapshots_snoc (looks : List Look) (l : Look) :
    snapshots (looks ++ [l]) =
      if looks.any Look.findsGone then snapshots looks else snapshots looks ++ l.snapshot?.toList := by
  induction looks with
  | nil =>
    cases h : l.probe with
    | error e => cases e <;> simp [snapshots, Look.findsGone, Look.snapshot?, h]
    | ok us => simp [snapshots, Look.findsGone, Look.snapshot?, h]
  | cons e looks ih =>
    rw [List.cons_append, snapshots_cons, snapshots_cons, ih, List.any_cons]
    cases e.findsGone with
    | true => simp
    | false => cases looks.any Look.findsGone <;> simp

theorem time_of_mem_snapshots (h : s ∈ snapshots looks) : ∃ l ∈ looks, l.time = s.time := by
  obtain ⟨l, hl, hs⟩ := List.mem_filterMap.mp h
  refine ⟨l, (List.takeWhile_prefix _).mem hl, ?_⟩
  unfold Look.snapshot? at hs
  split at hs
  · cases hs
    rfl
  · cases hs

def history (looks : List Look) : List LookStep := steps look {} looks

theorem run_look (m : Meter) (looks : List Look) : ∃ m', run look m looks = .ok m' := by
  induction looks generalizing m with
  | nil => exact ⟨m, rfl⟩
  | cons l looks ih => exact ih _

theorem events_history (looks : List Look) : (history looks).map (·.event) = looks := by
  obtain ⟨m, hm⟩ := run_look {} looks
  exact events_of_run hm

def kept (laid : Option Snapshot) (looks : List Look) : Meter :=
  { baseline := ((snapshots looks).getLast?.or laid).map Snapshot.baseline
    gone := looks.any Look.findsGone }

theorem Took.keeps (h : Took (kept laid looks) l m out) : m = kept laid (looks ++ [l]) := by
  unfold kept at h ⊢
  rw [snapshots_snoc, List.any_append]
  cases h with
  | ended hg =>
    dsimp only at hg
    simp [hg]
  | foundGone hg hl | unavailable hg hl | first hg hl | stalled hg hl | reading hg hl =>
    dsimp only at hg
    simp [hg, hl, Look.findsGone, Look.snapshot?]

theorem path_kept (hp : Path look (kept laid []) ts m) : m = kept laid (ts.map (·.event)) := by
  induction hp with
  | nil => rfl
  | @snoc ts t _ ht ih =>
    have htook := took_of_step ht
    rw [ih] at htook
    rw [htook.keeps, List.map_append]
    rfl

/-- What the answer to a look has to be after the looks `before`. -/
inductive Answered (before : List Look) (l : Look) : Answer → Prop where
  | gone (hg : ∃ e ∈ before ++ [l], e.findsGone) : Answered before l (.error .processGone)
  | unavailable (hg : ∀ e ∈ before, ¬ e.findsGone) (hl : l.probe = .error (.unavailable reason)) :
    Answered before l (.error (.unavailable reason))
  | first (hg : ∀ e ∈ before, ¬ e.findsGone) (hl : l.probe = .ok us) (hs : snapshots before = []) :
    Answered before l (.ok none)
  | reading (hg : ∀ e ∈ before, ¬ e.findsGone) (hl : l.probe = .ok us)
    (hs : (snapshots before).getLast? = some last) :
    Answered before l (.ok (some
      { time := l.time, busy := used (Usage.timeOf last.members) us, wall := l.time - last.time,
        residentBytes := totalResident us }))

theorem Took.answered (h : Took (kept none before) l m out) (hlater : ∀ e ∈ before, e.time < l.time) :
    Answered before l out := by
  have hquiet (hg : before.any Look.findsGone = false) : ∀ e ∈ before, ¬ e.findsGone := by simpa using hg
  cases h with
  | ended hg =>
    obtain ⟨e, he, hgone⟩ := List.any_eq_true.mp hg
    exact .gone ⟨e, List.mem_append_left _ he, hgone⟩
  | foundGone hg hl => exact .gone ⟨l, by simp, by simp [Look.findsGone, hl]⟩
  | unavailable hg hl => exact .unavailable (hquiet hg) hl
  | first hg hl hb => exact .first (hquiet hg) hl (by simpa [kept] using hb)
  | stalled hg hl hb ht =>
    obtain ⟨last, hlast, rfl⟩ := Option.map_eq_some_iff.mp hb
    rw [Option.or_none] at hlast
    obtain ⟨e, he, htime⟩ := time_of_mem_snapshots (List.mem_of_getLast? hlast)
    have hearlier := hlater e he
    rw [htime] at hearlier
    exact absurd ht (Nat.not_le.mpr hearlier)
  | reading hg hl hb ht =>
    obtain ⟨last, hlast, rfl⟩ := Option.map_eq_some_iff.mp hb
    rw [Option.or_none] at hlast
    rw [timeOf_baseline]
    exact .reading (hquiet hg) hl hlast

/-- The answers of a new meter follow from the history of its looks. -/
theorem history_answered (hlooks : looks.Pairwise (·.time < ·.time)) (h : history looks = pre ++ t :: post) :
    Answered (pre.map (·.event)) t.event t.output := by
  obtain ⟨hp, ht, -⟩ := steps_split h
  have hkept : t.before = kept none (pre.map (·.event)) := path_kept hp
  have htook := took_of_step ht
  rw [hkept] at htook
  rw [← events_history looks, h, List.map_append, List.map_cons] at hlooks
  exact htook.answered fun e he => (List.pairwise_append.mp hlooks).2.2 e he t.event List.mem_cons_self

end Meter

end Vigil
