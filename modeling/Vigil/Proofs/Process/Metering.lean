import Vigil.Proofs.Process.Snapshots

/-!
# Where the CPU time goes

Each snapshot is compared with the one before it, so that what the readings of a run add up to telescopes.
`Meter.faithful_to_looks`: under a clock that goes on, the readings of a tree whose processes stay account for all
of its CPU time. `Meter.conserves_but_for_stalls`: what is lost is what was used before a look for which no time
has passed. `Meter.counts_again_what_was_missed`: what is counted too often is the time of a process that was
missing for a while.
-/

namespace Vigil.Meter

open Usage (pids report? used totalTime)

variable {looks : List Look} {l : Look} {laid : Option Snapshot} {s s' : Snapshot} {later : List Snapshot}
  {t : LookStep} {m : Meter} {us : List Usage} {r : Reading} {pid : Int} {known : Nat}

-- ---------------------------------------------------------------------------
-- Sums over a run
-- ---------------------------------------------------------------------------

def added (f : (Int → Nat) → List Usage → Nat) (t : LookStep) : Nat :=
  match t.before.gone, t.before.baseline, t.event.probe with
  | false, some last, .ok us => f (timeOf last.cpuTimes) us
  | _, _, _ => 0

def between (g : Snapshot → Snapshot → Nat) : List Snapshot → Nat
  | s :: s' :: later => g s s' + between g (s' :: later)
  | _ => 0

theorem steps_look (m : Meter) (l : Look) (looks : List Look) :
    steps look m (l :: looks) =
      ⟨m, l, (m.sample l.time l.probe).2, (m.sample l.time l.probe).1⟩ ::
        steps look (m.sample l.time l.probe).1 looks :=
  rfl

theorem sum_added_gone (f : (Int → Nat) → List Usage → Nat) (hg : m.gone) (looks : List Look) :
    ((steps look m looks).map (added f)).sum = 0 := by
  induction looks with
  | nil => rfl
  | cons l looks ih =>
    have hsame : (m.sample l.time l.probe).1 = m := by simp [sample, hg]
    rw [steps_look, hsame, List.map_cons, List.sum_cons, ih]
    simp [added, hg]

theorem sum_added (f : (Int → Nat) → List Usage → Nat) (laid : Option Snapshot) (looks : List Look) :
    ((steps look (kept laid []) looks).map (added f)).sum =
      between (fun s s' => f (Usage.timeOf s.members) s'.members) (laid.toList ++ snapshots looks) := by
  induction looks generalizing laid with
  | nil => cases laid <;> rfl
  | cons l looks ih =>
    have hnext : ((kept laid []).sample l.time l.probe).1 = kept laid [l] := (took _ l).keeps
    rw [steps_look, hnext, List.map_cons, List.sum_cons, snapshots_cons]
    match hl : l.probe with
    | .error .gone =>
      have hg : (kept laid [l]).gone := by simp [kept, Look.findsGone, hl]
      rw [sum_added_gone f hg]
      cases laid <;> simp [added, Look.findsGone, hl, between]
    | .error (.unavailable reason) =>
      have hsame : kept laid [l] = kept laid [] := by simp [kept, snapshots, Look.findsGone, Look.snapshot?, hl]
      rw [hsame, ih]
      simp [added, Look.findsGone, Look.snapshot?, hl]
    | .ok us =>
      have hlaid : kept laid [l] = kept (some ⟨l.time, us⟩) [] := by
        simp [kept, snapshots, Look.findsGone, Look.snapshot?, hl]
      rw [hlaid, ih]
      cases laid with
      | none => simp [added, kept, snapshots, Look.findsGone, Look.snapshot?, hl]
      | some s =>
        simp [added, kept, snapshots, Look.findsGone, Look.snapshot?, hl, between, timeOf_baseline]

-- ---------------------------------------------------------------------------
-- Readings and what they miss
-- ---------------------------------------------------------------------------

def busy (t : LookStep) : Nat :=
  match t.output with
  | .ok (some r) => r.busy
  | _ => 0

/-- There was something to see, but no time had passed to relate it to. -/
def Stalled (t : LookStep) : Prop :=
  t.output = .error (.unavailable noTimePassed) ∧ ∃ us, t.event.probe = .ok us

/-- The CPU time that a stalled look notes and never reports. -/
def unread (t : LookStep) : Nat :=
  match t.output, t.event.probe, t.before.baseline with
  | .error (.unavailable _), .ok us, some last => used (timeOf last.cpuTimes) us
  | _, _, _ => 0

def share (pid : Int) (t : LookStep) : Nat :=
  match t.output, t.event.probe, t.before.baseline with
  | .ok (some _), .ok us, some last => Usage.timeOf us pid - timeOf last.cpuTimes pid
  | _, _, _ => 0

theorem busy_add_unread (ht : t.Of look) : busy t + unread t = added used t := by
  obtain ⟨m, l, out, m'⟩ := t
  have htook : Took m l m' out := took_of_step ht
  cases htook with
  | ended hg => simp [busy, unread, added, hg]
  | foundGone hg hl | unavailable hg hl => simp [busy, unread, added, hl]
  | first hg hl hb => simp [busy, unread, added, hb]
  | stalled hg hl hb | reading hg hl hb => simp [busy, unread, added, hg, hl, hb]

theorem unread_eq_zero (ht : t.Of look) (hs : ¬ Stalled t) : unread t = 0 := by
  obtain ⟨m, l, out, m'⟩ := t
  have htook : Took m l m' out := took_of_step ht
  cases htook with
  | stalled hg hl => exact absurd ⟨rfl, _, hl⟩ hs
  | unavailable hg hl => simp [unread, hl]
  | ended | foundGone | first | reading => rfl

theorem share_eq_added (ht : t.Of look) (hs : ¬ Stalled t) :
    share pid t = added (fun noted us => Usage.timeOf us pid - noted pid) t := by
  obtain ⟨m, l, out, m'⟩ := t
  have htook : Took m l m' out := took_of_step ht
  cases htook with
  | ended hg => simp [share, added, hg]
  | foundGone hg hl | unavailable hg hl => simp [share, added, hl]
  | first hg hl hb => simp [share, added, hb]
  | stalled hg hl => exact absurd ⟨rfl, _, hl⟩ hs
  | reading hg hl hb => simp [share, added, hg, hl, hb]

theorem busy_eq_sum_share (ht : t.Of look) (hr : t.output = .ok (some r)) :
    ∃ us, t.event.probe = .ok us ∧ r.busy = ∑ pid ∈ pids us, share pid t := by
  obtain ⟨m, l, out, m'⟩ := t
  have htook : Took m l m' out := took_of_step ht
  cases htook with
  | @reading us _ hg hl hb =>
    cases hr
    refine ⟨us, hl, ?_⟩
    dsimp only [used]
    refine Finset.sum_congr rfl fun pid _ => ?_
    simp [share, hl, hb]
  | _ => cases hr

theorem not_stalled (hlooks : looks.Pairwise (·.time < ·.time)) (ht : t ∈ history looks) : ¬ Stalled t := by
  obtain ⟨pre, post, h⟩ := List.append_of_mem ht
  rintro ⟨hout, us, hl⟩
  have hanswered := history_answered hlooks h
  rw [hout] at hanswered
  cases hanswered with
  | unavailable _ hfailed =>
    rw [hl] at hfailed
    cases hfailed

-- ---------------------------------------------------------------------------
-- A tree whose processes stay
-- ---------------------------------------------------------------------------

structure Snapshot.Grows (s s' : Snapshot) : Prop where
  pids : pids s'.members = pids s.members
  timeOf_le : ∀ pid, Usage.timeOf s.members pid ≤ Usage.timeOf s'.members pid

theorem Snapshot.Grows.total (h : s.Grows s') :
    totalTime s.members + used (Usage.timeOf s.members) s'.members = totalTime s'.members := by
  rw [totalTime, totalTime, used, ← h.pids, ← Finset.sum_add_distrib]
  exact Finset.sum_congr rfl fun pid _ => Nat.add_sub_of_le (h.timeOf_le pid)

theorem total_between (h : (s :: later).IsChain Snapshot.Grows) :
    totalTime s.members + between (fun s s' => used (Usage.timeOf s.members) s'.members) (s :: later) =
      totalTime (later.getLastD s).members := by
  induction later generalizing s with
  | nil => rfl
  | cons s' later ih =>
    obtain ⟨hgrows, hlater⟩ := List.isChain_cons_cons.mp h
    rw [between, ← Nat.add_assoc, hgrows.total, ih hlater, List.getLastD_cons]

theorem sum_busy_add_unread (laid : Option Snapshot) (looks : List Look) :
    ((steps look (kept laid []) looks).map busy).sum + ((steps look (kept laid []) looks).map unread).sum =
      between (fun s s' => used (Usage.timeOf s.members) s'.members) (laid.toList ++ snapshots looks) := by
  rw [← sum_added, ← List.sum_map_add]
  exact congrArg List.sum (List.map_congr_left fun t ht => busy_add_unread (of_mem_steps ht))

theorem sum_unread_eq_zero {ts : List LookStep} (hts : ∀ t ∈ ts, t.Of look ∧ ¬ Stalled t) :
    (ts.map unread).sum = 0 := by
  refine List.sum_eq_zero fun n hn => ?_
  obtain ⟨t, ht, rfl⟩ := List.mem_map.mp hn
  exact unread_eq_zero (hts t ht).1 (hts t ht).2

structure Faithful (looks : List Look) : Prop where
  events : (history looks).map (·.event) = looks
  answered : ∀ pre t post, history looks = pre ++ t :: post →
    Answered (pre.map (·.event)) t.event t.output
  unavailable : ∀ t ∈ history looks, ∀ reason, t.event.probe = .error (.unavailable reason) →
    t.after = t.before ∧ ∃ e, t.output = .error e
  total : ∀ first later, snapshots looks = first :: later → (first :: later).IsChain Snapshot.Grows →
    totalTime first.members + ((history looks).map busy).sum = totalTime (later.getLastD first).members

theorem Took.failed (h : Took m l m' out) (hl : l.probe = .error (.unavailable reason)) :
    m' = m ∧ ∃ e, out = .error e := by
  cases h with
  | ended => exact ⟨rfl, _, rfl⟩
  | unavailable => exact ⟨rfl, _, rfl⟩
  | foundGone _ hl' | first _ hl' | stalled _ hl' | reading _ hl' => simp [hl] at hl'

/-- A look comes to what its history demands, and each reading is of the time since the last snapshot, however
many looks have failed in between. -/
theorem faithful_to_looks (hlooks : looks.Pairwise (·.time < ·.time)) : Faithful looks where
  events := events_history looks
  answered _ _ _ h := history_answered hlooks h
  unavailable _ ht _ hl := (took_of_step (of_mem_steps ht)).failed hl
  total first later hfirst hgrows := by
    have hsum : ((history looks).map busy).sum + ((history looks).map unread).sum = between _ (snapshots looks) :=
      sum_busy_add_unread none looks
    have hunread : ((history looks).map unread).sum = 0 :=
      sum_unread_eq_zero fun t ht => ⟨of_mem_steps ht, not_stalled hlooks ht⟩
    rw [hunread, Nat.add_zero, hfirst] at hsum
    rw [hsum]
    exact total_between hgrows

def patchy : List Look :=
  [⟨0, .error (.unavailable "EACCES")⟩, ⟨10, .ok [⟨1, 100, 4⟩, ⟨2, 50, 4⟩]⟩, ⟨1010, .error (.unavailable "EACCES")⟩,
    ⟨2010, .ok [⟨2, 60, 4⟩, ⟨1, 0, 4⟩, ⟨1, 600, 4⟩]⟩, ⟨3010, .error .gone⟩, ⟨4010, .ok [⟨1, 700, 4⟩]⟩]

theorem patchy_grows :
    Snapshot.Grows ⟨10, [⟨1, 100, 4⟩, ⟨2, 50, 4⟩]⟩ ⟨2010, [⟨2, 60, 4⟩, ⟨1, 0, 4⟩, ⟨1, 600, 4⟩]⟩ where
  pids := by decide
  timeOf_le pid := by
    simp only [Usage.timeOf, Usage.report?_cons]
    by_cases h1 : 1 = pid
    · subst h1
      decide
    · by_cases h2 : 2 = pid
      · subst h2
        decide
      · simp [h1, h2]

theorem patchy_faithful : patchy.Pairwise (·.time < ·.time) ∧ Faithful patchy ∧
    (history patchy).map busy = [0, 0, 0, 510, 0, 0] ∧
    ∃ first later, snapshots patchy = first :: later ∧ (first :: later).IsChain Snapshot.Grows ∧
      totalTime first.members + ((history patchy).map busy).sum = totalTime (later.getLastD first).members := by
  have hlooks : patchy.Pairwise (·.time < ·.time) := by decide
  have hfaithful := faithful_to_looks hlooks
  have hgrows := List.isChain_pair.mpr patchy_grows
  exact ⟨hlooks, hfaithful, by decide, _, _, rfl, hgrows, hfaithful.total _ _ rfl hgrows⟩

-- ---------------------------------------------------------------------------
-- Looks for which no time has passed
-- ---------------------------------------------------------------------------

structure Conserves (s : Snapshot) (looks : List Look) : Prop where
  /-- A reading covers the time since the last snapshot, stalled or not. -/
  covers : ∀ pre t post r, steps look (kept (some s) []) looks = pre ++ t :: post → t.output = .ok (some r) →
    r.time = t.event.time ∧ r.wall = t.event.time - ((snapshots (pre.map (·.event))).getLastD s).time
  total : (s :: snapshots looks).IsChain Snapshot.Grows →
    totalTime s.members + ((steps look (kept (some s) []) looks).map busy).sum +
        ((steps look (kept (some s) []) looks).map unread).sum =
      totalTime ((snapshots looks).getLastD s).members
  unread : (∀ t ∈ steps look (kept (some s) []) looks, ¬ Stalled t) →
    ((steps look (kept (some s) []) looks).map unread).sum = 0

theorem Took.covers (h : Took (kept (some s) before) l m (.ok (some r))) :
    r.time = l.time ∧ r.wall = l.time - ((snapshots before).getLastD s).time := by
  cases h with
  | reading hg hl hb =>
    dsimp only [kept] at hb
    rw [Option.or_some, ← List.getLastD_eq_getLast?, Option.map_some] at hb
    cases hb
    exact ⟨rfl, rfl⟩

theorem conserves (s : Snapshot) (looks : List Look) : Conserves s looks where
  covers pre t post r h hr := by
    obtain ⟨hp, ht, -⟩ := steps_split h
    have htook := took_of_step ht
    rw [path_kept hp, hr] at htook
    exact htook.covers
  total hgrows := by
    rw [Nat.add_assoc, sum_busy_add_unread]
    exact total_between hgrows
  unread hs := sum_unread_eq_zero fun t ht => ⟨of_mem_steps ht, hs t ht⟩

/-- Where no reading is to be had, the meter is as before, unless the look stalls: then it goes on from the new
snapshot. Otherwise no CPU time is lost between the readings. -/
theorem conserves_but_for_stalls (m : Meter) (s : Snapshot) (looks : List Look) :
    (∀ (now : Nat) (probe : TreeProbe) (reason : String),
      (m.sample now probe).2 = .error (.unavailable reason) →
        probe = .error (.unavailable reason) ∧ (m.sample now probe).1 = m ∨
        ∃ us last, probe = .ok us ∧ reason = noTimePassed ∧ m.baseline = some last ∧ now ≤ last.time ∧
          (m.sample now probe).1 = { m with baseline := some (Snapshot.baseline ⟨now, us⟩) }) ∧
    Conserves s looks := by
  refine ⟨fun now probe reason h => ?_, conserves s looks⟩
  have htook := took m ⟨now, probe⟩
  dsimp only at htook
  rw [h] at htook
  generalize (m.sample now probe).1 = m' at htook ⊢
  cases htook with
  | unavailable _ hl => exact .inl ⟨hl, rfl⟩
  | stalled _ hl hb ht => exact .inr ⟨_, _, hl, rfl, hb, ht, rfl⟩

def idle : Snapshot := ⟨0, [⟨1, 0, 4⟩]⟩

def hasty : List Look := [⟨0, .ok [⟨1, 500, 4⟩]⟩, ⟨1000, .ok [⟨1, 800, 4⟩]⟩]

theorem hasty_grows : (idle :: snapshots hasty).IsChain Snapshot.Grows := by
  have hgrows (a b now then' : Nat) (h : a ≤ b) :
      Snapshot.Grows ⟨now, [⟨1, a, 4⟩]⟩ ⟨then', [⟨1, b, 4⟩]⟩ := by
    refine ⟨rfl, fun pid => ?_⟩
    by_cases hpid : 1 = pid <;> simp [Usage.timeOf, Usage.report?, hpid, h]
  exact .cons_cons (hgrows 0 500 0 0 (by decide)) (.cons_cons (hgrows 500 800 0 1000 (by decide)) (.singleton _))

theorem hasty_conserves :
    ((kept (some idle) []).sample 0 (.ok [⟨1, 500, 4⟩])).2 = .error (.unavailable noTimePassed) ∧
    ((kept (some idle) []).sample 0 (.ok [⟨1, 500, 4⟩])).1 = kept (some ⟨0, [⟨1, 500, 4⟩]⟩) [] ∧
    (idle :: snapshots hasty).IsChain Snapshot.Grows ∧
    totalTime idle.members + ((steps look (kept (some idle) []) hasty).map busy).sum +
        ((steps look (kept (some idle) []) hasty).map unread).sum = 800 := by
  have hstalls : ((kept (some idle) []).sample 0 (.ok [⟨1, 500, 4⟩])).2 = .error (.unavailable noTimePassed) := by
    decide
  have hconserves := conserves_but_for_stalls (kept (some idle) []) idle hasty
  refine ⟨hstalls, ?_, hasty_grows, hconserves.2.total hasty_grows⟩
  rcases hconserves.1 _ _ _ hstalls with ⟨hl, -⟩ | ⟨us, last, hl, -, -, -, hnext⟩
  · cases hl
  · cases hl
    exact hnext

/-- The 500 milliseconds that the first look noted are in no reading, although time never went backwards and the
last look was read. -/
theorem hasty_loses_time :
    (¬ ∀ (m : Meter) (now : Nat) (probe : TreeProbe) (reason : String),
      (m.sample now probe).2 = .error (.unavailable reason) → (m.sample now probe).1.baseline = m.baseline) ∧
    ¬ ∀ (s : Snapshot) (looks : List Look), (s.time :: looks.map (·.time)).Pairwise (· ≤ ·) →
      (s :: snapshots looks).IsChain Snapshot.Grows →
      (∀ t ∈ (steps look (kept (some s) []) looks).getLast?, ∃ r, t.output = .ok (some r)) →
        totalTime s.members + ((steps look (kept (some s) []) looks).map busy).sum =
          totalTime ((snapshots looks).getLastD s).members := by
  constructor
  · intro hclaim
    have hkept := hclaim (kept (some idle) []) 0 (.ok [⟨1, 500, 4⟩]) noTimePassed (by decide)
    revert hkept
    decide
  · intro hclaim
    have htotal := hclaim idle hasty (by decide) hasty_grows (by
      intro t ht
      cases ht
      exact ⟨_, rfl⟩)
    revert htotal
    decide

-- ---------------------------------------------------------------------------
-- Processes that are missing for a while
-- ---------------------------------------------------------------------------

def reports (pid : Int) (taken : List Snapshot) : List Nat := taken.filterMap fun s => report? s.members pid

/-- The CPU time of a process that is counted again. Where a snapshot lists the process and the one before does
not, it is taken for new, and all that had been reported of it by then comes in once more. -/
def recounted (pid : Int) (known : Nat) : List Snapshot → Nat
  | s :: s' :: later =>
    let known := (report? s.members pid).getD known
    (if pid ∈ pids s'.members ∧ pid ∉ pids s.members then known else 0) + recounted pid known (s' :: later)
  | _ => 0

/-- The process is listed, then missing, and then listed again. -/
def Missed (pid : Int) (taken : List Snapshot) : Prop :=
  ∃ s gap s', [s, gap, s'].Sublist taken ∧ pid ∈ pids s.members ∧ pid ∉ pids gap.members ∧ pid ∈ pids s'.members

theorem reports_cons (pid : Int) (s : Snapshot) (later : List Snapshot) :
    reports pid (s :: later) = (report? s.members pid).toList ++ reports pid later := by
  rw [reports, List.filterMap_cons]
  cases report? s.members pid <;> rfl

theorem getLastD_reports_cons (pid : Int) (s : Snapshot) (later : List Snapshot) (known : Nat) :
    (reports pid (s :: later)).getLastD known = (reports pid later).getLastD ((report? s.members pid).getD known) := by
  rw [reports_cons]
  cases report? s.members pid with
  | none => rfl
  | some n => rw [Option.toList_some, List.singleton_append, List.getLastD_cons, Option.getD_some]

theorem shares_between (h : (reports pid (s :: later)).Pairwise (· ≤ ·)) :
    between (fun s s' => Usage.timeOf s'.members pid - Usage.timeOf s.members pid) (s :: later) +
        (report? s.members pid).getD known =
      (reports pid (s :: later)).getLastD known + recounted pid known (s :: later) := by
  induction later generalizing s known with
  | nil =>
    rw [getLastD_reports_cons]
    simp [between, recounted, reports]
  | cons s' later ih =>
    have hlater : (reports pid (s' :: later)).Pairwise (· ≤ ·) :=
      h.sublist ((List.sublist_cons_self s (s' :: later)).filterMap _)
    have hnext := @ih s' ((report? s.members pid).getD known) hlater
    have hstep : Usage.timeOf s'.members pid - Usage.timeOf s.members pid + (report? s.members pid).getD known =
        (report? s'.members pid).getD ((report? s.members pid).getD known) +
          if pid ∈ pids s'.members ∧ pid ∉ pids s.members then (report? s.members pid).getD known else 0 := by
      simp only [Usage.mem_pids, Usage.timeOf]
      cases hs : report? s.members pid with
      | none => cases report? s'.members pid <;> simp
      | some a =>
        cases hs' : report? s'.members pid with
        | none => simp
        | some b =>
          have hle : a ≤ b := by
            rw [reports_cons, reports_cons, hs, hs'] at h
            exact List.rel_of_pairwise_cons h List.mem_cons_self
          simp only [Option.getD_some, Option.isSome_some, not_true_eq_false, and_false, if_false]
          omega
    rw [getLastD_reports_cons, between, recounted]
    omega

theorem recounted_eq_zero (h : ¬ Missed pid (s :: later))
    (hknown : known = 0 ∨ pid ∈ pids s.members ∨ ∀ s' ∈ later, pid ∉ pids s'.members) :
    recounted pid known (s :: later) = 0 := by
  induction later generalizing s known with
  | nil => rfl
  | cons s' later ih =>
    have hlater : ¬ Missed pid (s' :: later) := by
      rintro ⟨a, gap, b, hsub, hin⟩
      exact h ⟨a, gap, b, hsub.cons s, hin⟩
    rw [recounted]
    by_cases hs : pid ∈ pids s.members
    · have hafter : pid ∈ pids s'.members ∨ ∀ b ∈ later, pid ∉ pids b.members := by
        refine or_iff_not_imp_left.mpr fun hgap b hb hin => h ⟨s, s', b, ?_, hs, hgap, hin⟩
        exact ((List.singleton_sublist.mpr hb).cons_cons s').cons_cons s
      rw [if_neg fun hnew => hnew.2 hs, ih hlater (.inr hafter)]
    · have hreport : report? s.members pid = none := by
        rwa [Usage.mem_pids, Option.not_isSome_iff_eq_none] at hs
      rw [hreport, Option.getD_none]
      rcases hknown with rfl | hin | hout
      · rw [ih hlater (.inl rfl), ite_self]
      · exact absurd hin hs
      · rw [if_neg fun hnew => hout s' List.mem_cons_self hnew.1,
          ih hlater (.inr (.inr fun b hb => hout b (List.mem_cons_of_mem _ hb)))]

structure Counts (pid : Int) (looks : List Look) : Prop where
  shares : ∀ t ∈ history looks, ∀ r, t.output = .ok (some r) →
    ∃ us, t.event.probe = .ok us ∧ r.busy = ∑ p ∈ pids us, share p t
  total : ((history looks).map (share pid)).sum +
      (snapshots looks).head?.elim 0 (fun s => Usage.timeOf s.members pid) =
    (reports pid (snapshots looks)).getLastD 0 + recounted pid 0 (snapshots looks)
  once : ¬ Missed pid (snapshots looks) →
    ((history looks).map (share pid)).sum ≤ (reports pid (snapshots looks)).getLastD 0

/-- Of a process whose CPU time never falls, as much is counted as was last reported of it, less what the first
snapshot had of it, and besides, after every time it was missing, all that had been reported before. -/
theorem counts_again_what_was_missed (hlooks : looks.Pairwise (·.time < ·.time))
    (hreports : (reports pid (snapshots looks)).Pairwise (· ≤ ·)) : Counts pid looks := by
  have hsum : ((history looks).map (share pid)).sum =
      between (fun s s' => Usage.timeOf s'.members pid - Usage.timeOf s.members pid) (snapshots looks) := by
    rw [← List.nil_append (snapshots looks)]
    refine Eq.trans (congrArg List.sum (List.map_congr_left fun t ht => ?_))
      (sum_added (fun noted us => Usage.timeOf us pid - noted pid) none looks)
    exact share_eq_added (of_mem_steps ht) (not_stalled hlooks ht)
  have htotal : ((history looks).map (share pid)).sum +
      (snapshots looks).head?.elim 0 (fun s => Usage.timeOf s.members pid) =
      (reports pid (snapshots looks)).getLastD 0 + recounted pid 0 (snapshots looks) := by
    rw [hsum]
    cases hsnapshots : snapshots looks with
    | nil => rfl
    | cons s later =>
      rw [hsnapshots] at hreports
      exact shares_between hreports
  refine ⟨fun t ht r hr => busy_eq_sum_share (of_mem_steps ht) hr, htotal, fun hmissed => ?_⟩
  have hnone : recounted pid 0 (snapshots looks) = 0 := by
    cases hsnapshots : snapshots looks with
    | nil => rfl
    | cons s later =>
      rw [hsnapshots] at hmissed
      exact recounted_eq_zero hmissed (.inl rfl)
  omega

def flickering : List Look :=
  [⟨0, .ok [⟨10, 0, 4⟩]⟩, ⟨1000, .ok [⟨10, 0, 4⟩, ⟨12, 500, 4⟩]⟩, ⟨2000, .ok [⟨10, 0, 4⟩]⟩,
    ⟨3000, .ok [⟨10, 70, 4⟩, ⟨12, 600, 4⟩]⟩]

theorem flickering_counts :
    flickering.Pairwise (·.time < ·.time) ∧ (reports 12 (snapshots flickering)).Pairwise (· ≤ ·) ∧
      Counts 12 flickering ∧ ¬ Missed 10 (snapshots flickering) ∧
      ((history flickering).map (share 10)).sum ≤ (reports 10 (snapshots flickering)).getLastD 0 := by
  have hlooks : flickering.Pairwise (·.time < ·.time) := by decide
  have hreports : (reports 12 (snapshots flickering)).Pairwise (· ≤ ·) := by decide
  have hstays : ∀ s ∈ snapshots flickering, 10 ∈ pids s.members := by decide
  have hmissed : ¬ Missed 10 (snapshots flickering) := by
    rintro ⟨s, gap, s', hsub, -, hgap, -⟩
    exact hgap (hstays gap (hsub.subset (by simp)))
  exact ⟨hlooks, hreports, counts_again_what_was_missed hlooks hreports, hmissed,
    (counts_again_what_was_missed hlooks (by decide)).once hmissed⟩

theorem flickering_counted_twice : ¬ ∀ (looks : List Look) (pid : Int), looks.Pairwise (·.time < ·.time) →
    (reports pid (snapshots looks)).Pairwise (· ≤ ·) →
      ((history looks).map (share pid)).sum ≤ (reports pid (snapshots looks)).getLastD 0 := by
  intro hclaim
  have hcounted := hclaim flickering 12 (by decide) (by decide)
  revert hcounted
  decide

end Vigil.Meter
