import Vigil.Evidence.Tracked
import Vigil.Proofs.Evidence.Growth
import Vigil.Proofs.Evidence.Loops

/-!
# What the readings that are kept can show

Of readings that are one sampling interval apart a workload keeps the last few, which reach back
`Settings.Sampling.reach` and no further. Settings are accepted without regard to that.
`Tracked.detects_iff_in_reach`: a detector that asks for a longer stretch never goes off, however long the load
is full or the memory grows, and any other one does as soon as it has seen enough.
-/

namespace Vigil

-- ---------------------------------------------------------------------------
-- Series
-- ---------------------------------------------------------------------------

structure Series (α : Type) where
  first : Nat
  interval : Nat
  value : Nat → α

namespace Series

variable {α : Type} {q : Series α} {r : Ring α} {capacity n window : Nat}

def entry (q : Series α) (i : Nat) : Stamped α := ⟨q.first + i * q.interval, q.value i⟩

def part (q : Series α) (start count : Nat) : List (Stamped α) := (List.range' start count).map q.entry

/-- Of the first `n` entries of the series the ring keeps as many as it has room for. -/
structure Kept (q : Series α) (capacity n : Nat) (r : Ring α) : Prop where
  holds : r.Holds capacity
  maxAge : r.maxAge = none
  entries : r.entries = q.part (n - max capacity 1) (min n (max capacity 1))

theorem part_snoc (q : Series α) (start count : Nat) :
    q.part start (count + 1) = q.part start count ++ [q.entry (start + count)] := by
  simp [part, List.range'_concat]

theorem part_cons (q : Series α) (start count : Nat) :
    q.part start (count + 1) = q.entry start :: q.part (start + 1) count := rfl

theorem time_le (q : Series α) {i j : Nat} (h : i ≤ j) : (q.entry i).time ≤ (q.entry j).time :=
  Nat.add_le_add_left (Nat.mul_le_mul_right q.interval h) q.first

theorem time_sub (q : Series α) (i j : Nat) : (q.entry j).time - (q.entry i).time = (j - i) * q.interval := by
  rw [entry, entry, Nat.add_sub_add_left, Nat.sub_mul]

theorem kept_empty (q : Series α) (capacity : Nat) : q.Kept capacity 0 (.empty capacity none) where
  holds := Ring.holds_empty capacity none
  maxAge := rfl
  entries := by simp [Ring.empty, part]

theorem Kept.ordered (h : q.Kept capacity n r) : r.Ordered := by
  rw [Ring.Ordered, h.entries, part, List.pairwise_map]
  exact List.Pairwise.imp (fun hij => q.time_le hij) List.pairwise_le_range'

theorem Kept.newest? (h : q.Kept capacity (n + 1) r) : r.newest? = some (q.entry n) := by
  obtain ⟨count, hcount⟩ : ∃ count, min (n + 1) (max capacity 1) = count + 1 :=
    ⟨min (n + 1) (max capacity 1) - 1, by omega⟩
  rw [Ring.newest?, h.entries, hcount, part_snoc, List.getLast?_concat]
  congr 2
  omega

theorem Kept.oldest? (h : q.Kept capacity (n + 1) r) :
    r.oldest? = some (q.entry (n + 1 - max capacity 1)) := by
  obtain ⟨count, hcount⟩ : ∃ count, min (n + 1) (max capacity 1) = count + 1 :=
    ⟨min (n + 1) (max capacity 1) - 1, by omega⟩
  rw [Ring.oldest?, h.entries, hcount, part_cons, List.head?_cons]

theorem Kept.accepts (h : q.Kept capacity n r) : r.accepts (q.entry n).time := by
  rw [Ring.accepts_iff]
  intro e he
  cases n with
  | zero =>
    have hnone : r.entries = [] := by simp [h.entries, part]
    rw [Ring.newest?, hnone] at he
    cases he
  | succ n =>
    rw [h.newest?] at he
    rw [← Option.some.inj he]
    exact q.time_le (Nat.le_succ n)

theorem Kept.push (h : q.Kept capacity n r) :
    q.Kept capacity (n + 1) (r.push (q.entry n).time (q.value n)) := by
  have hpush : r.push (q.entry n).time (q.value n) = r.appended (q.entry n).time (q.value n) := by
    rw [Ring.push_accepted h.accepts, Ring.prune]
    simp [Ring.appended, h.maxAge]
  refine ⟨h.holds.push _ _, by rw [hpush]; exact h.maxAge, ?_⟩
  have hentries := h.entries
  have hsize : r.entries.length = min n (max capacity 1) := by simp [hentries, part]
  have hcapacity := h.holds.capacity
  have hfull : r.isAtCapacity ↔ max capacity 1 ≤ n := by
    rw [Ring.isAtCapacity, beq_iff_eq, Ring.size, hsize, hcapacity]
    omega
  obtain ⟨room, hroom⟩ : ∃ room, max capacity 1 = room + 1 := ⟨max capacity 1 - 1, by omega⟩
  rw [hroom] at hentries hfull ⊢
  rw [hpush, Ring.appended, hentries]
  by_cases hn : room + 1 ≤ n
  · have hlast : n - (room + 1) + 1 + room = n := by omega
    rw [if_pos (hfull.mpr hn), Nat.min_eq_right hn, Nat.min_eq_right (by omega), part_cons, List.drop_one,
      List.tail_cons, Nat.sub_add_comm hn, part_snoc, hlast]
    rfl
  · rw [if_neg (mt hfull.mp hn), Nat.sub_eq_zero_of_le (by omega), Nat.sub_eq_zero_of_le (by omega),
      Nat.min_eq_left (by omega), Nat.min_eq_left (by omega), part_snoc, Nat.zero_add]
    rfl

theorem part_of_suffix {es : List (Stamped α)} {start count : Nat} (h : es <:+ q.part start count) :
    ∃ start', es = q.part start' es.length ∧ start' + es.length = start + count := by
  obtain ⟨front, hfront⟩ := h
  obtain ⟨skipped, rest, hrange, -, rfl⟩ := List.map_eq_append_iff.mp hfront.symm
  obtain ⟨k, hk, -, rfl⟩ := List.range'_eq_append_iff.mp hrange
  refine ⟨start + k, ?_, ?_⟩
  · simp [part]
  · simp only [List.length_map, List.length_range']
    omega

theorem Kept.recent (h : q.Kept capacity (n + 1) r) (window : Nat) :
    ∃ start count, start + count = n ∧ r.recent window = q.part start (count + 1) ∧
      count * q.interval ≤ window := by
  have hnewest := h.newest?
  have hself : q.entry n ∈ r.recent window := by
    rw [Ring.recent_eq_filter hnewest]
    exact List.mem_filter.mpr ⟨List.mem_of_getLast? hnewest, by simp⟩
  have hsuffix := h.ordered.recent_suffix window
  rw [h.entries] at hsuffix
  obtain ⟨start, hpart, hend⟩ := part_of_suffix hsuffix
  obtain ⟨count, hcount⟩ := Nat.exists_eq_add_of_lt (List.length_pos_of_mem hself)
  rw [Nat.zero_add] at hcount
  rw [hcount] at hpart hend
  have hoff := Ring.within_recent r window (q.entry start) (by rw [hpart, part_cons]; simp) _ hnewest
  have hback : count = n - start := by omega
  rw [q.time_sub, ← hback] at hoff
  exact ⟨start, count, by omega, hpart, hoff⟩

theorem Kept.reaches_iff (h : q.Kept capacity (n + 1) r) {span : Nat} (hlong : span ≤ n * q.interval) :
    (∀ oldest ∈ r.oldest?, ∀ newest ∈ r.newest?, span ≤ newest.time - oldest.time) ↔
      span ≤ (max capacity 1 - 1) * q.interval := by
  have hends : (∀ oldest ∈ r.oldest?, ∀ newest ∈ r.newest?, span ≤ newest.time - oldest.time) ↔
      span ≤ (n - (n + 1 - max capacity 1)) * q.interval := by
    rw [h.oldest?, h.newest?, ← q.time_sub]
    simp
  rw [hends]
  by_cases hn : n + 1 ≤ max capacity 1
  · have hreach := Nat.mul_le_mul_right q.interval (show n ≤ max capacity 1 - 1 by omega)
    rw [Nat.sub_eq_zero_of_le hn, Nat.sub_zero]
    omega
  · have hback : n - (n + 1 - max capacity 1) = max capacity 1 - 1 := by omega
    rw [hback]

theorem value_lt {q : Series Nat} (h : ∀ i < n, q.value i < q.value (i + 1)) {i j : Nat} (hij : i < j)
    (hj : j ≤ n) : q.value i < q.value j := by
  induction j with
  | zero => omega
  | succ j ih =>
    have hstep := h j hj
    rcases Nat.lt_or_eq_of_le (Nat.le_of_lt_succ hij) with hlt | rfl
    · exact Nat.lt_trans (ih hlt (by omega)) hstep
    · exact hstep

theorem Kept.increasing {q : Series Nat} {r : Ring Nat} (h : q.Kept capacity (n + 1) r)
    (hgrows : ∀ i < n, q.value i < q.value (i + 1)) : r.entries.Pairwise (·.value < ·.value) := by
  rw [h.entries, part, List.pairwise_map]
  refine List.Pairwise.imp_of_mem ?_ List.pairwise_lt_range'
  intro i j hi hj hij
  have hlast := (List.mem_range'_1.mp hj).2
  exact value_lt hgrows hij (by omega)

theorem values_part (h : ∀ i < start + count, q.value i = a) :
    (q.part start count).map (·.value) = List.replicate count a := by
  refine List.eq_replicate_iff.mpr ⟨by simp [part], ?_⟩
  intro b hb
  obtain ⟨e, he, rfl⟩ := List.mem_map.mp hb
  obtain ⟨i, hi, rfl⟩ := List.mem_map.mp he
  exact h i (List.mem_range'_1.mp hi).2

end Series

-- ---------------------------------------------------------------------------
-- Full load
-- ---------------------------------------------------------------------------

namespace CpuLoad

theorem total_full {n : Nat} (h : ((n + 1) * 100).log2 ≤ 52) :
    total (List.replicate (n + 1) 100) = Float.ofNat ((n + 1) * 100) := by
  induction n with
  | zero => rfl
  | succ n ih =>
    have hle : ((n + 1) * 100).log2 ≤ 52 :=
      Nat.le_trans (Count.log2_mono (by omega) (by omega)) h
    have hsum : total (List.replicate (n + 1 + 1) 100) = total (List.replicate (n + 1) 100) + 100 := by
      rw [total, List.replicate_succ', List.foldl_append]
      rfl
    have hnext : (n + 1 + 1) * 100 = (n + 1) * 100 + 100 := by omega
    rw [hnext] at h ⊢
    rw [hsum, ih hle]
    exact Count.ofNat_add (by omega) (by decide) h

theorem meanOf_full {n : Nat} (h : ((n + 1) * 100).log2 ≤ 52) :
    meanOf (List.replicate (n + 1) 100) = 100 := by
  have hquotient := Count.ofNat_mul_div (q := 100) (k := n + 1) (by decide) (by omega) (by rwa [Nat.mul_comm])
  rw [meanOf, total_full h, List.length_replicate, Nat.mul_comm]
  exact hquotient

variable {s : Settings.Cpu} {cpu : Ring Float} {q : Series Float} {capacity n : Nat}

theorem verdict_sustained_iff : (evaluate s cpu).verdict = .sustained ↔
    (cpu.recent s.window).map (·.value) ≠ [] ∧ s.sustainedPercent ≤ meanOf ((cpu.recent s.window).map (·.value)) ∧
      covers cpu s.window := by
  unfold evaluate
  generalize (cpu.recent s.window).map (·.value) = xs
  cases xs with
  | nil => simp
  | cons x xs =>
    simp only [Bool.and_eq_true, decide_eq_true_eq]
    split
    · rename_i hboth
      simp [hboth]
    · rename_i hnot
      refine iff_of_false ?_ fun h => hnot ⟨h.2.2, h.2.1⟩
      split <;> simp

theorem evaluate_full (h : (cpu.recent s.window).map (·.value) = List.replicate (n + 1) 100)
    (hle : ((n + 1) * 100).log2 ≤ 52) :
    (evaluate s cpu).verdict = .sustained ↔ s.sustainedPercent ≤ 100 ∧ covers cpu s.window := by
  rw [verdict_sustained_iff, h, meanOf_full hle]
  exact and_iff_right (by simp)

theorem covers_kept (h : q.Kept capacity (n + 1) cpu) {window : Nat} (hlong : window ≤ n * q.interval) :
    covers cpu window ↔ window ≤ (max capacity 1 - 1) * q.interval := by
  rw [← h.reaches_iff hlong, covers, h.oldest?, h.newest?]
  simp

end CpuLoad

-- ---------------------------------------------------------------------------
-- Growth
-- ---------------------------------------------------------------------------

namespace Growth

variable {memory : Ring Nat}

theorem trailing_increasing (hord : memory.Ordered) (h : memory.entries.Pairwise (·.value < ·.value)) :
    (trailing memory).samples = memory.size ∧
      ∀ oldest ∈ memory.oldest?, ∀ newest ∈ memory.newest?,
        (trailing memory).span = newest.time - oldest.time := by
  obtain ⟨es, hend, hmeasures⟩ := trailing_growingEnd hord
  have hall : es = memory.entries :=
    hend.suffix.eq_of_length_le (hend.longest _ (List.suffix_refl _) h).length_le
  rw [hall] at hmeasures
  refine ⟨hmeasures.samples, fun oldest hold newest hnew => ?_⟩
  have hspan := hmeasures.span oldest hold newest hnew
  omega

theorem isLeak_kept {s : Settings.Memory} {q : Series Nat} {capacity n : Nat}
    (h : q.Kept capacity (n + 1) memory) (hgrows : ∀ i < n, q.value i < q.value (i + 1))
    (hcount : s.leakMinSamples ≤ n + 1) (hlong : s.leakMinSpan ≤ n * q.interval) :
    Resources.isLeak s (trailing memory) ↔
      s.leakMinSamples ≤ max capacity 1 ∧ s.leakMinSpan ≤ (max capacity 1 - 1) * q.interval := by
  obtain ⟨hsamples, hspan⟩ := trailing_increasing h.ordered (h.increasing hgrows)
  have hsize : memory.size = min (n + 1) (max capacity 1) := by simp [Ring.size, h.entries, Series.part]
  have hspan : (trailing memory).span = _ := hspan _ h.oldest? _ h.newest?
  rw [Resources.isLeak, Bool.and_eq_true, decide_eq_true_eq, decide_eq_true_eq, hsamples, hsize, hspan,
    ← h.reaches_iff hlong, h.oldest?, h.newest?]
  refine and_congr ?_ ?_
  · omega
  · simp

end Growth

-- ---------------------------------------------------------------------------
-- Readings at regular times
-- ---------------------------------------------------------------------------

namespace Settings

/-- How far the readings that are kept reach back. -/
def Sampling.reach (s : Sampling) : Nat := (max s.historyCapacity 1 - 1) * s.intervalMs

end Settings

namespace Tracked

variable {s : Settings} {id : ProcessId} {begun first n : Nat} {cpu : Nat → Float} {resident : Nat → Nat}

def afterReadings (s : Settings) (id : ProcessId) (begun first : Nat) (cpu : Nat → Float)
    (resident : Nat → Nat) : Nat → Tracked
  | 0 => start s id begun
  | n + 1 =>
    (afterReadings s id begun first cpu resident n).recordSample (first + n * s.sampling.intervalMs) (cpu n)
      (resident n)

theorem afterReadings_kept (s : Settings) (id : ProcessId) (begun first : Nat) (cpu : Nat → Float)
    (resident : Nat → Nat) (n : Nat) :
    (Series.mk first s.sampling.intervalMs cpu).Kept s.sampling.historyCapacity n
        (afterReadings s id begun first cpu resident n).cpuSamples ∧
      (Series.mk first s.sampling.intervalMs resident).Kept s.sampling.historyCapacity n
        (afterReadings s id begun first cpu resident n).memSamples := by
  induction n with
  | zero => exact ⟨Series.kept_empty _ _, Series.kept_empty _ _⟩
  | succ n ih =>
    obtain ⟨hcpu, hmem⟩ := ih
    have haccepts : (afterReadings s id begun first cpu resident n).cpuSamples.accepts
        (first + n * s.sampling.intervalMs) := hcpu.accepts
    rw [afterReadings, recordSample, if_pos haccepts]
    exact ⟨hcpu.push, hmem.push⟩

def resources (s : Settings) (t : Tracked) : Resources :=
  .evaluate s.cpu s.memory t.cpuSamples t.memSamples

/-- Accepted settings leave a detector able to go off just if the readings that are kept reach as far back as
it asks for. After readings one sampling interval apart, the load is sustained once it has been full for a CPU
window, and memory that has grown for long enough is a leak; otherwise neither is ever found. A demanded load
that is not a number is never reached. -/
theorem detects_iff_in_reach (hs : s.Accepted) (id : ProcessId) (begun first n : Nat) (cpu : Nat → Float)
    (resident : Nat → Nat) :
    ((∀ i ≤ n, cpu i = 100) → s.cpu.window ≤ n * s.sampling.intervalMs →
      ((resources s (afterReadings s id begun first cpu resident (n + 1))).cpu.verdict = .sustained ↔
        ¬ s.cpu.sustainedPercent.isNaN ∧ s.cpu.window ≤ s.sampling.reach)) ∧
    ((∀ i, i + 1 < n → resident i < resident (i + 1)) → s.memory.leakMinSamples ≤ n →
      s.memory.leakMinSpan ≤ (n - 1) * s.sampling.intervalMs →
      ((resources s (afterReadings s id begun first cpu resident n)).leaking ↔
        s.memory.leakMinSamples ≤ max s.sampling.historyCapacity 1 ∧
          s.memory.leakMinSpan ≤ s.sampling.reach)) := by
  constructor
  · intro hfull hlong
    have hkept := (afterReadings_kept s id begun first cpu resident (n + 1)).1
    obtain ⟨start, count, hend, hrecent, hback⟩ := hkept.recent s.cpu.window
    have hvalues : ((afterReadings s id begun first cpu resident (n + 1)).cpuSamples.recent s.cpu.window).map
        (·.value) = List.replicate (count + 1) 100 := by
      rw [hrecent]
      exact Series.values_part fun i hi => hfull i (by omega)
    have hcount := Nat.le_trans (Nat.le_mul_of_pos_right count hs.interval_pos) hback
    have hwindow := hs.cpu_window_le
    have hbits : ((count + 1) * 100).log2 ≤ 52 := Count.log2_le (by omega)
    rw [← hs.sustainedPercent_le_iff]
    exact (CpuLoad.evaluate_full hvalues hbits).trans (and_congr_right' (CpuLoad.covers_kept hkept hlong))
  · intro hgrows hcount hlong
    have hpos := hs.leakMinSamples_pos
    cases n with
    | zero => omega
    | succ n =>
      have hkept := (afterReadings_kept s id begun first cpu resident (n + 1)).2
      exact Growth.isLeak_kept hkept (fun i hi => hgrows i (by omega)) hcount hlong

def overworked (s : Settings) : Nat → Tracked := afterReadings s ⟨1, 1⟩ 0 0 (fun _ => 100) (4096 * ·)

theorem overworked_detected :
    (resources {} (overworked {} 12)).cpu.verdict = .sustained ∧
      (resources {} (overworked {} 12)).leaking := by
  have hs : Settings.Accepted {} := by decide +kernel
  obtain ⟨hcpu, -⟩ := detects_iff_in_reach hs ⟨1, 1⟩ 0 0 11 (fun _ => 100) (4096 * ·)
  obtain ⟨-, hmemory⟩ := detects_iff_in_reach hs ⟨1, 1⟩ 0 0 12 (fun _ => 100) (4096 * ·)
  have hgrows (i : Nat) : i + 1 < 12 → 4096 * i < 4096 * (i + 1) := by omega
  exact ⟨(hcpu (fun _ _ => rfl) (by decide)).mpr ⟨by decide +kernel, by decide⟩,
    (hmemory hgrows (by decide) (by decide)).mpr ⟨by decide, by decide⟩⟩

/-- One reading more would have to be kept for a stretch of ten seconds. -/
def scarce : Settings := { sampling := { historyCapacity := 10 } }

theorem overworked_unnoticed :
    scarce.Accepted ∧ scarce.cpu.window ≤ 11 * scarce.sampling.intervalMs ∧
      scarce.memory.leakMinSamples ≤ 12 ∧ scarce.memory.leakMinSpan ≤ 11 * scarce.sampling.intervalMs ∧
      (resources scarce (overworked scarce 12)).cpu.verdict ≠ .sustained ∧
      ¬ (resources scarce (overworked scarce 12)).leaking := by
  refine ⟨?_, ?_, ?_, ?_, ?_, ?_⟩
  · decide +kernel
  · decide
  · decide
  · decide
  · decide +kernel
  · decide +kernel

end Tracked

end Vigil
