import Vigil.Proofs.Watch.InStep
import Vigil.Watch.Feeders

/-!
# What a watched process can come to

`Watched.Move` lists what a step of a watched process can come to, and `Watched.Brings` what such a step
can add to the queue; `Watched.Offers` says what it puts before the watch. What every step of a watch
keeps, a watched process keeps.
-/

namespace Vigil.Watched

-- ---------------------------------------------------------------------------
-- A step
-- ---------------------------------------------------------------------------

inductive Move (s : Settings) (w : Watched) :
    WatchedEvent → Watched → List WatchEffect → Prop
  | line {time l} : Move s w (.line time l) (w.bring (.line time l)) []
  | looked {now tree} : Move s w (.look now tree) (w.look now tree) []
  | ended {code} : Move s w (.ends code) (w.endWith code) []
  | waited {result} : Move s w (.waited result) (w.finishWait result) []
  | idle : (w.watch.phase = .serving → w.queue = []) → Move s w .take w []
  | took {e rest v fx} : w.queue = e :: rest → w.watch.phase = .serving ∨ w.watch.phase = .draining →
      w.watch.Move s e v fx → Move s w .take { w with queue := rest, watch := v } fx
  | ignored {e} : e.isDirect = false → Move s w (.direct e) w []
  | heard {e v fx} : e.isDirect → w.watch.Move s e v fx →
      Move s w (.direct e) { w with watch := v } fx

variable {s : Settings} {w w' : Watched} {e : WatchedEvent} {fx : List WatchEffect}

theorem serve_eq_ok {e : WatchEvent} (h : w.serve s e = .ok (w', fx)) :
    ∃ v, w.watch.Move s e v fx ∧ w' = { w with watch := v } := by
  obtain ⟨⟨v, fx⟩, hstep, h⟩ := map_ok.mp h
  cases h
  exact ⟨v, Watch.step_move hstep, rfl⟩

theorem step_move (h : w.step s e = .ok (w', fx)) : Move s w e w' fx := by
  cases e with
  | line time l => cases h; exact .line
  | look now tree => cases h; exact .looked
  | ends code => cases h; exact .ended
  | waited result => cases h; exact .waited
  | take =>
    simp only [step, take] at h
    split at h
    · rename_i e rest hq
      split at h
      · rename_i hp
        obtain ⟨v, hm, rfl⟩ := serve_eq_ok h
        exact .took hq (by simpa using hp) hm
      · rename_i hp
        cases h
        exact .idle fun hserving => absurd (by simp [hserving]) hp
    · rename_i hq
      cases h
      exact .idle fun _ => hq
  | direct e =>
    simp only [step] at h
    split at h
    · rename_i hd
      obtain ⟨v, hm, rfl⟩ := serve_eq_ok h
      exact .heard hd hm
    · rename_i hd
      cases h
      exact .ignored (Bool.eq_false_iff.mpr hd)

-- ---------------------------------------------------------------------------
-- The queue
-- ---------------------------------------------------------------------------

inductive Brings (w : Watched) : WatchedEvent → WatchEvent → Prop
  | line {time l} : Brings w (.line time l) (.line time l)
  | reading {now tree r} : Brings w (.look now tree) (.reading r)
  | lost {now} : Brings w (.look now (.error .gone)) (.sampleFailed .processGone)
  | unmetered {now tree reason} : Brings w (.look now tree) (.sampleFailed (.unavailable reason))
  | collected {code} : w.ended = some code → w.waitOver = false →
      Brings w (.waited (.collected code)) (.exited code)
  | failed : w.waitOver = false → Brings w (.waited .failed) (.exited none)

theorem Brings.isDirect (h : Brings w e n) : n.isDirect = false := by
  cases h <;> rfl

theorem sample_brings (hg : w.meter.gone = false)
    (h : WatchEvent.ofSample? (w.meter.sample now tree).2 = some n) : Brings w (.look now tree) n := by
  unfold Meter.sample at h
  rw [hg] at h
  cases tree with
  | error err =>
    cases err with
    | gone => cases h; exact .lost
    | unavailable reason => cases h; exact .unmetered
  | ok members =>
    cases hb : w.meter.baseline with
    | none => simp [hb, WatchEvent.ofSample?] at h
    | some last =>
      simp only [hb, Bool.false_eq_true, ↓reduceIte] at h
      split at h
      · cases h; exact .unmetered
      · cases h; exact .reading

theorem look_eq (w : Watched) (now : Nat) (tree : TreeProbe) :
    ∃ meter news, w.look now tree = { w with meter, queue := w.queue ++ news } ∧
      ∀ n ∈ news, Brings w (.look now tree) n := by
  unfold look
  split
  · exact ⟨w.meter, [], by simp, by simp⟩
  · rename_i hg
    cases hs : WatchEvent.ofSample? (w.meter.sample now tree).2 with
    | none => exact ⟨(w.meter.sample now tree).1, [], by simp [hs], by simp⟩
    | some n =>
      have hn := sample_brings (Bool.eq_false_iff.mpr hg) hs
      exact ⟨(w.meter.sample now tree).1, [n], by simp [hs, bring], by simpa using hn⟩

theorem finishWait_eq (w : Watched) (result : WaitResult) :
    w.finishWait result = w ∨ ∃ n, Brings w (.waited result) n ∧
      w.finishWait result = { w with waitOver := true, queue := w.queue ++ [n] } := by
  by_cases ho : w.waitOver
  · left
    cases result <;> simp [finishWait, ho]
  · have ho := Bool.eq_false_iff.mpr ho
    cases result with
    | failed => exact .inr ⟨.exited none, .failed ho, by simp [finishWait, ho, bring, WatchEvent.ofWait]⟩
    | collected code =>
      by_cases he : w.ended = some code
      · exact .inr ⟨.exited code, .collected he ho,
          by simp [finishWait, ho, he, bring, WatchEvent.ofWait]⟩
      · exact .inl (by simp [finishWait, he])

theorem move_brings (hm : Move s w e w' fx) : ∀ n ∈ w'.queue, n ∈ w.queue ∨ Brings w e n := by
  intro n hn
  cases hm with
  | line =>
    rcases List.mem_append.mp hn with hn | hn
    · exact .inl hn
    · obtain rfl := List.mem_singleton.mp hn
      exact .inr .line
  | @looked now tree =>
    obtain ⟨meter, news, heq, hnews⟩ := look_eq w now tree
    rw [heq] at hn
    exact (List.mem_append.mp hn).imp id (hnews n)
  | @waited result =>
    rcases finishWait_eq w result with heq | ⟨m, hm, heq⟩
    · exact .inl (heq ▸ hn)
    · rw [heq] at hn
      rcases List.mem_append.mp hn with hn | hn
      · exact .inl hn
      · obtain rfl := List.mem_singleton.mp hn
        exact .inr hm
  | took hq => exact .inl (hq ▸ List.mem_cons_of_mem _ hn)
  | _ => exact .inl hn

-- ---------------------------------------------------------------------------
-- The process and its watch
-- ---------------------------------------------------------------------------

theorem move_alive (hm : Move s w e w' fx) (ha : w'.isAlive) : w.isAlive := by
  cases hm with
  | ended => simp [isAlive, endWith] at ha
  | @looked now tree =>
    obtain ⟨meter, news, heq, -⟩ := look_eq w now tree
    rw [heq] at ha
    exact ha
  | @waited result =>
    rcases finishWait_eq w result with heq | ⟨n, -, heq⟩
    · exact heq ▸ ha
    · rw [heq] at ha
      exact ha
  | _ => exact ha

/-- The event puts one before the watch: the oldest of the queue, or one that need not queue. -/
inductive Offers (w : Watched) (e : WatchedEvent) (n : WatchEvent) : Prop
  | queued {rest} : e = .take → w.queue = n :: rest →
      w.watch.phase = .serving ∨ w.watch.phase = .draining → Offers w e n
  | direct : e = .direct n → n.isDirect → Offers w e n

/-- The watch takes a step with what is put before it, or nothing happens to it. -/
theorem move_watch (hm : Move s w e w' fx) :
    w'.watch = w.watch ∧ fx = [] ∨ ∃ n, Offers w e n ∧ w.watch.Move s n w'.watch fx := by
  cases hm with
  | @looked now tree =>
    obtain ⟨meter, news, heq, -⟩ := look_eq w now tree
    exact .inl ⟨by rw [heq], rfl⟩
  | @waited result =>
    rcases finishWait_eq w result with heq | ⟨n, -, heq⟩
    · exact .inl ⟨by rw [heq], rfl⟩
    · exact .inl ⟨by rw [heq], rfl⟩
  | took hq hp hv => exact .inr ⟨_, .queued rfl hq hp, hv⟩
  | heard hd hv => exact .inr ⟨_, .direct rfl hd, hv⟩
  | _ => exact .inl ⟨rfl, rfl⟩

theorem move_direct (hm : Move s w (.direct n) w' fx) (hd : n.isDirect) :
    w.watch.Move s n w'.watch fx := by
  cases hm with
  | ignored hn =>
    rw [hn] at hd
    cases hd
  | heard _ hv => exact hv

-- ---------------------------------------------------------------------------
-- Whole runs
-- ---------------------------------------------------------------------------

variable {id : ProcessId} {now : Nat} {ts : List (Step Watched WatchedEvent (List WatchEffect))}

/-- Nothing stands in the queue that reaches the watch without queueing. -/
theorem path_queue (hp : Path (step s) (start s id now) ts w) : ∀ n ∈ w.queue, n.isDirect = false := by
  refine hp.preserves (P := fun v => ∀ n ∈ v.queue, n.isDirect = false) (by simp [start]) ?_
  intro t _ ht hq n hn
  rcases move_brings (step_move ht) n hn with hn | hn
  · exact hq n hn
  · exact hn.isDirect

theorem path_watch {P : Watch → Prop} (hp : Path (step s) w ts w') (hw : P w.watch)
    (hstep : ∀ v e v' fx, Watch.Move s v e v' fx → P v → P v') : P w'.watch := by
  refine hp.preserves (P := fun v => P v.watch) hw ?_
  intro t _ ht hv
  rcases move_watch (step_move ht) with ⟨heq, -⟩ | ⟨n, -, hm⟩
  · rw [heq]
    exact hv
  · exact hstep _ _ _ _ hm hv

theorem path_coherent (hp : Path (step s) (start s id now) ts w) : w.watch.Coherent :=
  path_watch hp (Watch.start_coherent s id now) fun _ _ _ _ hm hc => (Watch.move_coherent hc hm).2

theorem path_parentGone (hp : Path (step s) w ts w') (hg : w.watch.parentGone) :
    w'.watch.parentGone :=
  path_watch (P := fun v => v.parentGone) hp hg fun _ _ _ _ hm hg => Watch.move_parentGone hm hg

end Vigil.Watched
