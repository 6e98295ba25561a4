import Mathlib.Data.List.Induction
import Vigil.Proofs.Report.Encoding

/-!
# What the status file shows

Workloads are tracked and diagnosed, and any of the writes that follow may fail: the staging file is left half
written, or does not take the place of the status file. `StatusTracker.Faithful` says what the view and the file
are after any such calls. The view goes by the calls alone, whatever the disk made of them; the file holds the
snapshot of the last write that was done, also while the next one is under way, and that snapshot can be read from
it.
-/

namespace Vigil.Report

-- ---------------------------------------------------------------------------
-- The view
-- ---------------------------------------------------------------------------

def ProcessStatus.diagnosed (s : ProcessStatus) (d : Diagnosis) (time : Instant) : ProcessStatus :=
  { s with state := d.target, lastTransition := time, evidence := some d.evidence }

namespace StatusView

variable {v : StatusView} {s x : ProcessStatus} {d : Diagnosis} {time : Instant} {pid : Int}

@[simp] theorem get?_nil (pid : Int) : get? [] pid = none := rfl

theorem get?_cons (x : ProcessStatus) (v : StatusView) (pid : Int) :
    get? (x :: v) pid = if x.id.pid = pid then some x else get? v pid := by
  by_cases h : x.id.pid = pid <;> simp [get?, h]

theorem pid_of_get? (h : v.get? pid = some s) : s.id.pid = pid := by
  simpa using List.find?_some h

theorem get?_insert (s : ProcessStatus) (v : StatusView) (pid : Int) :
    (insert s v).get? pid = if s.id.pid = pid then some s else v.get? pid := by
  induction v with
  | nil => exact get?_cons s [] pid
  | cons x v ih =>
    unfold insert
    by_cases hlt : s.id.pid < x.id.pid
    · rw [if_pos hlt, get?_cons]
    · rw [if_neg hlt]
      by_cases heq : s.id.pid = x.id.pid
      · rw [if_pos heq, get?_cons, get?_cons, ← heq]
        split <;> rfl
      · rw [if_neg heq, get?_cons, get?_cons, ih]
        by_cases hx : x.id.pid = pid
        · have hs : s.id.pid ≠ pid := hx ▸ heq
          rw [if_pos hx, if_neg hs, if_pos hx]
        · rw [if_neg hx, if_neg hx]

theorem apply_eq (v : StatusView) (d : Diagnosis) (time : Instant) : v.apply d time =
    v.map fun s => if s.id.pid = d.process.pid then s.diagnosed d time else s := rfl

theorem get?_apply (v : StatusView) (d : Diagnosis) (time : Instant) (pid : Int) :
    (v.apply d time).get? pid =
      if d.process.pid = pid then (v.get? pid).map (·.diagnosed d time) else v.get? pid := by
  induction v with
  | nil => simp [apply_eq]
  | cons x v ih =>
    have hsame : (if x.id.pid = d.process.pid then x.diagnosed d time else x).id = x.id := by
      split <;> rfl
    rw [apply_eq] at ih ⊢
    rw [List.map_cons, get?_cons, get?_cons, hsame, ih]
    by_cases hx : x.id.pid = pid
    · by_cases hd : d.process.pid = pid
      · simp [hx, hd]
      · simp [hx, hd, Ne.symm hd]
    · rw [if_neg hx, if_neg hx]

theorem apply_of_absent (h : v.get? d.process.pid = none) (time : Instant) : v.apply d time = v := by
  have hother : ∀ s ∈ v, ¬ s.id.pid = d.process.pid := by simpa [get?] using h
  rw [apply_eq, List.map_congr_left fun s hs => if_neg (hother s hs), List.map_id']

def Keyed (v : StatusView) : Prop := v.Pairwise (·.id.pid < ·.id.pid)

theorem mem_insert (h : x ∈ insert s v) : x = s ∨ x ∈ v := by
  induction v with
  | nil => exact .inl (List.mem_singleton.mp h)
  | cons y v ih =>
    unfold insert at h
    split at h
    · exact List.mem_cons.mp h
    · split at h
      · exact (List.mem_cons.mp h).imp_right (List.mem_cons_of_mem y)
      · rcases List.mem_cons.mp h with rfl | h
        · exact .inr List.mem_cons_self
        · exact (ih h).imp_right (List.mem_cons_of_mem y)

theorem Keyed.insert (h : v.Keyed) (s : ProcessStatus) : Keyed (insert s v) := by
  induction v with
  | nil => exact List.pairwise_singleton _ s
  | cons x v ih =>
    obtain ⟨hx, hv⟩ := List.pairwise_cons.mp h
    unfold StatusView.insert
    by_cases hlt : s.id.pid < x.id.pid
    · rw [if_pos hlt]
      refine List.pairwise_cons.mpr ⟨?_, h⟩
      rintro y (_ | ⟨_, hy⟩)
      · exact hlt
      · exact Int.lt_trans hlt (hx y hy)
    · rw [if_neg hlt]
      by_cases heq : s.id.pid = x.id.pid
      · rw [if_pos heq]
        exact List.pairwise_cons.mpr ⟨fun y hy => heq ▸ hx y hy, hv⟩
      · rw [if_neg heq]
        refine List.pairwise_cons.mpr ⟨?_, ih hv⟩
        intro y hy
        rcases mem_insert hy with rfl | hy
        · omega
        · exact hx y hy

theorem Keyed.apply (h : v.Keyed) (d : Diagnosis) (time : Instant) : (v.apply d time).Keyed := by
  refine List.pairwise_map.mpr (h.imp ?_)
  intro x y hxy
  split <;> split <;> exact hxy

def Timed (v : StatusView) : Prop := ∀ s ∈ v, s.lastTransition.Valid

theorem Timed.track (h : v.Timed) (id : ProcessId) (command : String) {now : Instant} (hnow : now.Valid) :
    (v.track id command now).Timed := by
  intro x hx
  rcases mem_insert hx with rfl | hx
  · exact hnow
  · exact h x hx

theorem Timed.apply (h : v.Timed) (d : Diagnosis) (htime : time.Valid) : (v.apply d time).Timed := by
  refine List.forall_mem_map.mpr fun s hs => ?_
  split
  · exact htime
  · exact h s hs

end StatusView

-- ---------------------------------------------------------------------------
-- Calls
-- ---------------------------------------------------------------------------

inductive StatusCall where
  | track (id : ProcessId) (command : String) (now : Instant) (r : WriteResult)
  | apply (d : Diagnosis) (time now : Instant) (r : WriteResult)
  deriving DecidableEq

namespace StatusCall

def now : StatusCall → Instant
  | track _ _ now _ | apply _ _ now _ => now

def result : StatusCall → WriteResult
  | track _ _ _ r | apply _ _ _ r => r

def Timed : StatusCall → Prop
  | track _ _ now _ => now.Valid
  | apply _ time now _ => time.Valid ∧ now.Valid

theorem Timed.now {c : StatusCall} (h : c.Timed) : c.now.Valid := by
  cases c with
  | track => exact h
  | apply => exact h.2

/-- The same call, where the disk takes everything. -/
def undisturbed : StatusCall → StatusCall
  | track id command now _ => track id command now .done
  | apply d time now _ => apply d time now .done

def Tracks (pid : Int) : StatusCall → Prop
  | track id .. => id.pid = pid
  | apply .. => False

def diagnosis? (pid : Int) : StatusCall → Option (Diagnosis × Instant)
  | track .. => none
  | apply d time _ _ => if d.process.pid = pid then some (d, time) else none

def shown (v : StatusView) : StatusCall → StatusView
  | track id command now _ => v.track id command now
  | apply d time _ _ => v.apply d time

def Updates (v : StatusView) : StatusCall → Prop
  | track .. => True
  | apply d .. => v.get? d.process.pid ≠ none

instance (v : StatusView) (c : StatusCall) : Decidable (c.Updates v) := by
  cases c <;> unfold Updates <;> infer_instance

end StatusCall

/-- The workload as it is shown after diagnoses: the last of them counts. -/
def statusAfter (id : ProcessId) (command : String) (now : Instant) (ds : List (Diagnosis × Instant)) :
    ProcessStatus :=
  match ds.getLast? with
  | none => ⟨id, command, .healthy, now, none⟩
  | some (d, time) => ⟨id, command, d.target, time, some d.evidence⟩

/-- Since the workload was last tracked, these are its diagnoses. -/
def Shows (calls : List StatusCall) (s : ProcessStatus) : Prop :=
  ∃ before id command now r since, calls = before ++ .track id command now r :: since ∧
    (∀ c ∈ since, ¬ c.Tracks id.pid) ∧
    s = statusAfter id command now (since.filterMap (·.diagnosis? id.pid))

variable {calls : List StatusCall} {c : StatusCall} {s : ProcessStatus} {t : StatusTracker}

@[simp] theorem statusAfter_id (id : ProcessId) (command : String) (now : Instant)
    (ds : List (Diagnosis × Instant)) : (statusAfter id command now ds).id = id := by
  unfold statusAfter
  split <;> rfl

theorem statusAfter_snoc (id : ProcessId) (command : String) (now : Instant)
    (ds : List (Diagnosis × Instant)) (d : Diagnosis) (time : Instant) :
    statusAfter id command now (ds ++ [(d, time)]) = (statusAfter id command now ds).diagnosed d time := by
  rw [statusAfter, List.getLast?_concat, statusAfter]
  cases ds.getLast? with
  | none => rfl
  | some p => rfl

def ProcessStatus.after (s : ProcessStatus) (c : StatusCall) : ProcessStatus :=
  match c.diagnosis? s.id.pid with
  | none => s
  | some (d, time) => s.diagnosed d time

@[simp] theorem ProcessStatus.after_id (s : ProcessStatus) (c : StatusCall) : (s.after c).id = s.id := by
  unfold after
  split <;> rfl

theorem statusAfter_after (id : ProcessId) (command : String) (now : Instant) (since : List StatusCall)
    (c : StatusCall) : (statusAfter id command now (since.filterMap (·.diagnosis? id.pid))).after c =
      statusAfter id command now ((since ++ [c]).filterMap (·.diagnosis? id.pid)) := by
  rw [ProcessStatus.after, statusAfter_id, List.filterMap_append, List.filterMap_cons, List.filterMap_nil]
  cases c.diagnosis? id.pid with
  | none => simp
  | some p => exact (statusAfter_snoc ..).symm

theorem shows_snoc : Shows (calls ++ [c]) s ↔
    (∃ id command now r, c = .track id command now r ∧ s = statusAfter id command now []) ∨
      ∃ earlier, Shows calls earlier ∧ ¬ c.Tracks earlier.id.pid ∧ s = earlier.after c := by
  constructor
  · rintro ⟨before, id, command, now, r, since, hcalls, hsince, rfl⟩
    rcases List.eq_nil_or_concat since with rfl | ⟨since, c', rfl⟩
    · obtain ⟨-, hlast⟩ := List.append_inj' hcalls rfl
      exact .inl ⟨id, command, now, r, List.head_eq_of_cons_eq hlast, rfl⟩
    · rw [List.concat_eq_append, ← List.cons_append, ← List.append_assoc] at hcalls
      obtain ⟨rfl, hlast⟩ := List.append_inj' hcalls rfl
      obtain rfl : c = c' := List.head_eq_of_cons_eq hlast
      rw [List.concat_eq_append] at hsince ⊢
      refine .inr ⟨statusAfter id command now (since.filterMap (·.diagnosis? id.pid)), ?_, ?_, ?_⟩
      · exact ⟨before, id, command, now, r, since, rfl, fun c hc => hsince c (List.mem_append_left _ hc), rfl⟩
      · rw [statusAfter_id]
        exact hsince c (by simp)
      · rw [statusAfter_after]
  · rintro (⟨id, command, now, r, rfl, rfl⟩ | ⟨earlier, ⟨before, id, command, now, r, since, rfl, hsince, rfl⟩,
      hnot, rfl⟩)
    · exact ⟨calls, id, command, now, r, [], rfl, by simp, rfl⟩
    · rw [statusAfter_id] at hnot
      refine ⟨before, id, command, now, r, since ++ [c], by simp, ?_, statusAfter_after ..⟩
      intro c' hc'
      rcases List.mem_append.mp hc' with hc' | hc'
      · exact hsince c' hc'
      · rwa [List.mem_singleton.mp hc']

namespace StatusTracker

def serve (t : StatusTracker) : StatusCall → StatusTracker
  | .track id command now r => t.track id command now r
  | .apply d time now r => t.apply d time now r

def play (t : StatusTracker) (calls : List StatusCall) : StatusTracker := calls.foldl serve t

theorem play_snoc (t : StatusTracker) (calls : List StatusCall) (c : StatusCall) :
    t.play (calls ++ [c]) = (t.play calls).serve c := by
  rw [play, List.foldl_append]
  rfl

theorem apply_of_absent {d : Diagnosis} (h : t.view.get? d.process.pid = none) (time now : Instant)
    (r : WriteResult) : t.apply d time now r = t := by
  rw [apply, h]

/-- What a call makes of a tracker: the view goes by the call alone, and is written if it changes. -/
theorem serve_eq (t : StatusTracker) (c : StatusCall) : t.serve c =
    { t with
      view := c.shown t.view
      file := if c.Updates t.view then t.file.write (Snapshot.text ⟨t.pid, c.now, c.shown t.view⟩) c.result
        else t.file } := by
  cases c with
  | track id command now r => simp [serve, track, update, StatusCall.shown, StatusCall.Updates,
      StatusCall.now, StatusCall.result]
  | apply d time now r =>
    cases hd : t.view.get? d.process.pid with
    | none => simp [serve, apply_of_absent hd, StatusCall.shown, StatusView.apply_of_absent hd,
        StatusCall.Updates, hd]
    | some s => simp [serve, apply, update, hd, StatusCall.shown, StatusCall.Updates, StatusCall.now,
        StatusCall.result]

theorem view_serve (t : StatusTracker) (c : StatusCall) : (t.serve c).view = c.shown t.view := by
  rw [serve_eq]

@[simp] theorem pid_serve (t : StatusTracker) (c : StatusCall) : (t.serve c).pid = t.pid := by
  rw [serve_eq]

theorem view_play (t : StatusTracker) (calls : List StatusCall) :
    (t.play calls).view = calls.foldl (fun v c => c.shown v) t.view := by
  induction calls using List.reverseRecOn with
  | nil => rfl
  | append_singleton calls c ih => rw [play_snoc, view_serve, ih, List.foldl_append]; rfl

theorem keyed_play (h : t.view.Keyed) (calls : List StatusCall) : (t.play calls).view.Keyed := by
  induction calls using List.reverseRecOn with
  | nil => exact h
  | append_singleton calls c ih =>
    rw [play_snoc, view_serve]
    cases c with
    | track => exact ih.insert _
    | apply => exact ih.apply _ _

theorem timed_play (h : t.view.Timed) (hcalls : ∀ c ∈ calls, c.Timed) : (t.play calls).view.Timed := by
  induction calls using List.reverseRecOn with
  | nil => exact h
  | append_singleton calls c ih =>
    obtain ⟨hearlier, hc⟩ := List.forall_mem_append.mp hcalls
    have htimed := List.forall_mem_singleton.mp hc
    rw [play_snoc, view_serve]
    cases c with
    | track => exact (ih hearlier).track _ _ htimed
    | apply => exact (ih hearlier).apply _ htimed.1

theorem get?_shown_apply (v : StatusView) (d : Diagnosis) (time now : Instant) (r : WriteResult) (pid : Int) :
    (StatusCall.shown v (.apply d time now r)).get? pid =
      (v.get? pid).map (·.after (.apply d time now r)) := by
  rw [StatusCall.shown, StatusView.get?_apply]
  cases hx : v.get? pid with
  | none => split <;> rfl
  | some x =>
    have hpid := StatusView.pid_of_get? hx
    by_cases hd : d.process.pid = pid
    · simp [ProcessStatus.after, StatusCall.diagnosis?, hpid, hd]
    · simp [ProcessStatus.after, StatusCall.diagnosis?, hpid, hd]

/-- After a call, a workload is shown that the call tracks, or that was shown before and is not tracked anew. -/
theorem get?_shown (v : StatusView) (c : StatusCall) (pid : Int) (s : ProcessStatus) :
    (c.shown v).get? pid = some s ↔
      (∃ id command now r, c = .track id command now r ∧ id.pid = pid ∧ s = statusAfter id command now []) ∨
        ∃ earlier, v.get? pid = some earlier ∧ ¬ c.Tracks pid ∧ s = earlier.after c := by
  cases c with
  | track id command now r =>
    rw [StatusCall.shown, StatusView.track, StatusView.get?_insert]
    by_cases hpid : id.pid = pid
    · rw [if_pos hpid]
      constructor
      · intro hs
        cases hs
        exact .inl ⟨id, command, now, r, rfl, hpid, rfl⟩
      · rintro (⟨_, _, _, _, hc, -, rfl⟩ | ⟨_, -, hnot, -⟩)
        · cases hc
          rfl
        · exact absurd hpid hnot
    · rw [if_neg hpid]
      constructor
      · intro hs
        exact .inr ⟨s, hs, hpid, rfl⟩
      · rintro (⟨_, _, _, _, hc, hid, -⟩ | ⟨earlier, hearlier, -, rfl⟩)
        · cases hc
          exact absurd hid hpid
        · exact hearlier
  | apply d time now r =>
    rw [get?_shown_apply, Option.map_eq_some_iff]
    constructor
    · rintro ⟨earlier, hearlier, rfl⟩
      exact .inr ⟨earlier, hearlier, fun htracks => htracks, rfl⟩
    · rintro (⟨_, _, _, _, hc, -, -⟩ | ⟨earlier, hearlier, -, rfl⟩)
      · cases hc
      · exact ⟨earlier, hearlier, rfl⟩

theorem get?_play (h : t.view = []) (calls : List StatusCall) (pid : Int) (s : ProcessStatus) :
    (t.play calls).view.get? pid = some s ↔ Shows calls s ∧ s.id.pid = pid := by
  induction calls using List.reverseRecOn generalizing s with
  | nil =>
    rw [play, List.foldl_nil, h, StatusView.get?_nil]
    simp [Shows]
  | append_singleton calls c ih =>
    rw [play_snoc, view_serve, get?_shown, shows_snoc]
    constructor
    · rintro (⟨id, command, now, r, rfl, hid, rfl⟩ | ⟨earlier, hearlier, hnot, rfl⟩)
      · exact ⟨.inl ⟨id, command, now, r, rfl, rfl⟩, by rwa [statusAfter_id]⟩
      · obtain ⟨hshows, hpid⟩ := (ih earlier).mp hearlier
        exact ⟨.inr ⟨earlier, hshows, hpid ▸ hnot, rfl⟩, by rwa [ProcessStatus.after_id]⟩
    · rintro ⟨⟨id, command, now, r, rfl, rfl⟩ | ⟨earlier, hshows, hnot, rfl⟩, hpid⟩
      · rw [statusAfter_id] at hpid
        exact .inl ⟨id, command, now, r, rfl, hpid, rfl⟩
      · rw [ProcessStatus.after_id] at hpid
        exact .inr ⟨earlier, (ih earlier).mpr ⟨hshows, hpid⟩, hpid ▸ hnot, rfl⟩

theorem get?_play_eq_none (h : t.view = []) {pid : Int} (hnever : ∀ c ∈ calls, ¬ c.Tracks pid) :
    (t.play calls).view.get? pid = none := by
  refine Option.eq_none_iff_forall_ne_some.mpr fun s hs => ?_
  obtain ⟨⟨before, id, command, now, r, since, rfl, -, rfl⟩, hpid⟩ := (get?_play h calls pid s).mp hs
  rw [statusAfter_id] at hpid
  exact hnever (.track id command now r) (by simp) hpid

end StatusTracker

-- ---------------------------------------------------------------------------
-- The file
-- ---------------------------------------------------------------------------

inductive FileStep where
  | stage (content : Option String)
  | rename
  deriving DecidableEq

namespace StatusFile

def step (f : StatusFile) : FileStep → StatusFile
  | .stage content => { f with staged := content }
  | .rename => { published := f.staged, staged := none }

end StatusFile

/-- The steps of a write, by what the disk makes of it. The staging file may hold anything on its way. -/
inductive Writing (text : String) : WriteResult → List FileStep → Prop
  | done (partway : List (Option String)) :
      Writing text .done ((partway ++ [some text]).map .stage ++ [.rename])
  | notStaged (partway : List (Option String)) (left : Option String) (e : SystemError) :
      Writing text (.notStaged left e) ((partway ++ [left]).map .stage)
  | notPublished (partway : List (Option String)) (e : SystemError) :
      Writing text (.notPublished e) ((partway ++ [some text]).map .stage)

section
variable {f : StatusFile} {text : String} {r : WriteResult} {fs : List FileStep}

theorem published_stages (f : StatusFile) (contents : List (Option String)) :
    ((contents.map .stage).foldl StatusFile.step f).published = f.published := by
  induction contents generalizing f with
  | nil => rfl
  | cons content contents ih => exact ih _

theorem foldl_stages (f : StatusFile) (partway : List (Option String)) (content : Option String) :
    ((partway ++ [content]).map .stage).foldl StatusFile.step f = { f with staged := content } := by
  have hkept := published_stages f partway
  rw [List.map_append, List.foldl_append]
  show StatusFile.mk _ _ = StatusFile.mk _ _
  rw [hkept]

theorem Writing.ends (h : Writing text r fs) (f : StatusFile) : fs.foldl StatusFile.step f = f.write text r := by
  cases h with
  | done => rw [List.foldl_append, foldl_stages]; rfl
  | notStaged | notPublished => exact foldl_stages ..

/-- Until a write is over, the status file is what it was before. -/
theorem Writing.unseen (h : Writing text r fs) (f : StatusFile) (n : Nat) :
    ((fs.take n).foldl StatusFile.step f).published = f.published ∨ fs.take n = fs := by
  cases h with
  | done partway =>
    by_cases hn : n ≤ ((partway ++ [some text]).map FileStep.stage).length
    · rw [List.take_append_of_le_length hn, ← List.map_take]
      exact .inl (published_stages ..)
    · right
      refine List.take_of_length_le ?_
      rw [List.length_append, List.length_singleton]
      omega
  | notStaged | notPublished =>
    rw [← List.map_take]
    exact .inl (published_stages ..)

end

namespace StatusTracker

/-- The snapshots that are to be written, one for each call that changes what is shown, with what the disk
makes of them. -/
def attempts (t : StatusTracker) : List StatusCall → List (Snapshot × WriteResult)
  | [] => []
  | c :: calls =>
    let rest := (t.serve c).attempts calls
    if c.Updates t.view then (⟨t.pid, c.now, (t.serve c).view⟩, c.result) :: rest else rest

def lastDone? (writes : List (Snapshot × WriteResult)) : Option Snapshot :=
  (writes.filter (·.2 = .done)).getLast?.map (·.1)

theorem attempts_append (t : StatusTracker) (calls more : List StatusCall) :
    t.attempts (calls ++ more) = t.attempts calls ++ (t.play calls).attempts more := by
  induction calls generalizing t with
  | nil => rfl
  | cons c calls ih =>
    rw [List.cons_append, attempts, attempts, ih]
    split <;> rfl

theorem lastDone?_snoc (writes : List (Snapshot × WriteResult)) (snapshot : Snapshot) (r : WriteResult) :
    lastDone? (writes ++ [(snapshot, r)]) = if r = .done then some snapshot else lastDone? writes := by
  by_cases h : r = .done <;> simp [lastDone?, h]

theorem published_write (f : StatusFile) (text : String) (r : WriteResult) :
    (f.write text r).published = if r = .done then some text else f.published := by
  cases r <;> rfl

theorem published_play (t : StatusTracker) (calls : List StatusCall) : (t.play calls).file.published =
    ((lastDone? (t.attempts calls)).map Snapshot.text).or t.file.published := by
  induction calls using List.reverseRecOn with
  | nil => rfl
  | append_singleton calls c ih =>
    rw [play_snoc, attempts_append, attempts, attempts]
    by_cases hupdates : c.Updates (t.play calls).view
    · rw [if_pos hupdates, lastDone?_snoc, serve_eq, if_pos hupdates, published_write]
      split
      · rfl
      · exact ih
    · rw [if_neg hupdates, List.append_nil, serve_eq, if_neg hupdates]
      exact ih

theorem pid_play (t : StatusTracker) (calls : List StatusCall) : (t.play calls).pid = t.pid := by
  induction calls using List.reverseRecOn with
  | nil => rfl
  | append_singleton calls c ih => rw [play_snoc, pid_serve, ih]

theorem attempts_whole (t : StatusTracker) {calls : List StatusCall} {a : Snapshot × WriteResult}
    (h : a ∈ t.attempts calls) : ∃ before c after, calls = before ++ c :: after ∧
      a = (⟨t.pid, c.now, (t.play (before ++ [c])).view⟩, c.result) := by
  induction calls using List.reverseRecOn with
  | nil => cases h
  | append_singleton calls c ih =>
    rw [attempts_append] at h
    rcases List.mem_append.mp h with h | h
    · obtain ⟨before, c', after, rfl, ha⟩ := ih h
      exact ⟨before, c', after ++ [c], by simp, ha⟩
    · refine ⟨calls, c, [], rfl, ?_⟩
      rw [attempts, attempts, pid_play, ← play_snoc] at h
      split at h
      · exact List.mem_singleton.mp h
      · cases h

theorem attempts_valid (h : t.view.Timed) (hcalls : ∀ c ∈ calls, c.Timed) {a : Snapshot × WriteResult}
    (ha : a ∈ t.attempts calls) : a.1.Valid := by
  obtain ⟨before, c, after, rfl, rfl⟩ := attempts_whole t ha
  rw [List.append_cons] at hcalls
  have hbefore := (List.forall_mem_append.mp hcalls).1
  exact ⟨(hbefore c (by simp)).now, timed_play h hbefore⟩

theorem lastDone?_mem {writes : List (Snapshot × WriteResult)} {last : Snapshot} (h : lastDone? writes = some last) :
    (last, .done) ∈ writes := by
  obtain ⟨⟨s, r⟩, hs, rfl⟩ := Option.map_eq_some_iff.mp h
  obtain ⟨hmem, hr⟩ := List.mem_filter.mp (List.mem_of_getLast? hs)
  obtain rfl : r = .done := by simpa using hr
  exact hmem

theorem published_eq_text_iff (h : t.view.Timed) (hcalls : ∀ c ∈ calls, c.Timed) {last s : Snapshot}
    (hlast : lastDone? (t.attempts calls) = some last) (hs : s.Valid) :
    (t.play calls).file.published = some s.text ↔ s = last := by
  have hvalid := attempts_valid h hcalls (lastDone?_mem hlast)
  rw [published_play, hlast]
  constructor
  · intro htext
    exact (Snapshot.text_inj hvalid hs (Option.some.inj htext)).symm
  · rintro rfl
    rfl

theorem view_undisturbed (t : StatusTracker) (calls : List StatusCall) :
    (t.play (calls.map (·.undisturbed))).view = (t.play calls).view := by
  rw [view_play, view_play, List.foldl_map]
  congr 1
  funext v c
  cases c <;> rfl

/-- What a tracker shows, in its view and in the status file, after some calls. There may have been a file
before. -/
structure Faithful (pid : Nat) (file : StatusFile) (calls : List StatusCall) (t : StatusTracker) : Prop where
  shows : ∀ p s, t.view.get? p = some s ↔ Shows calls s ∧ s.id.pid = p
  keyed : t.view.Keyed
  undisturbed : (play { pid, file } (calls.map (·.undisturbed))).view = t.view
  published : t.file.published =
    ((lastDone? (attempts { pid, file } calls)).map Snapshot.text).or file.published
  /-- The status file can be read as that snapshot only. -/
  told : (∀ c ∈ calls, c.Timed) → ∀ last s, lastDone? (attempts { pid, file } calls) = some last → s.Valid →
    (t.file.published = some s.text ↔ s = last)
  whole : ∀ a ∈ attempts { pid, file } calls, ∃ before c after, calls = before ++ c :: after ∧
    a = (⟨pid, c.now, (play { pid, file } (before ++ [c])).view⟩, c.result)
  /-- While the next write is under way, the status file stays as it is, until the write is over. -/
  unseen : ∀ c fs, c.Updates t.view → Writing (Snapshot.text ⟨pid, c.now, (t.serve c).view⟩) c.result fs →
    fs.foldl StatusFile.step t.file = (t.serve c).file ∧
      ∀ n, ((fs.take n).foldl StatusFile.step t.file).published = t.file.published ∨ fs.take n = fs
  ignores : ∀ d time now r, (∀ c ∈ calls, ¬ c.Tracks d.process.pid) → t.apply d time now r = t

/-- Whatever the calls, and whatever the disk makes of the writes, the view is up to date, and the status file
is a whole snapshot: that of the last write that was done. -/
theorem faithful_to_calls (pid : Nat) (file : StatusFile) (calls : List StatusCall) :
    Faithful pid file calls (play { pid, file } calls) where
  shows := get?_play rfl calls
  keyed := keyed_play (t := { pid, file }) List.Pairwise.nil calls
  undisturbed := view_undisturbed _ calls
  published := published_play _ calls
  told hcalls _ _ hlast hs := published_eq_text_iff (t := { pid, file }) (fun _ hs => absurd hs List.not_mem_nil)
    hcalls hlast hs
  whole _ ha := attempts_whole _ ha
  unseen c fs hupdates hwriting := by
    have hfile : ((play { pid, file } calls).serve c).file = (play { pid, file } calls).file.write
        (Snapshot.text ⟨pid, c.now, ((play { pid, file } calls).serve c).view⟩) c.result := by
      rw [serve_eq, if_pos hupdates, pid_play]
    exact ⟨(hwriting.ends _).trans hfile.symm, hwriting.unseen _⟩
  ignores _ time now r hnever := apply_of_absent (get?_play_eq_none rfl hnever) time now r

/-- The first snapshot is lost on a full disk, and the next one tells all of it. -/
theorem told_after_full_disk :
    let calls : List StatusCall := [
      .track ⟨7, 7⟩ "work" ⟨0, 0⟩ (.notStaged (some "\x7b") ⟨28, "No space left on device"⟩),
      .apply ⟨⟨7, 7⟩, .healthy, .stuck, "one line for 60s"⟩ ⟨60, 0⟩ ⟨60, 500000000⟩ .done]
    let shown : ProcessStatus := ⟨⟨7, 7⟩, "work", .stuck, ⟨60, 0⟩, some "one line for 60s"⟩
    ∀ s : Snapshot, s.Valid →
      ((play { pid := 1 } calls).file.published = some s.text ↔ s = ⟨1, ⟨60, 500000000⟩, [shown]⟩) := by
  intro calls shown s hs
  have htimed : ∀ c ∈ calls, c.Timed := List.forall_mem_cons.mpr ⟨Instant.valid_of_lt (by decide),
    List.forall_mem_singleton.mpr ⟨Instant.valid_of_lt (by decide), Instant.valid_of_lt (by decide)⟩⟩
  exact (faithful_to_calls 1 {} calls).told htimed _ s rfl hs

end StatusTracker

end Vigil.Report
