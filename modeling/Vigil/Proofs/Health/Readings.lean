import Vigil.Proofs.Health.CleanSlate

/-!
# Two series of the same readings

CPU load and memory are kept in a ring each. Nothing that a ring does looks at the values of its entries, so it
commutes with a change of values, `Ring.map_push`. The two rings are therefore always the two halves of one ring
of whole readings, whatever else a workload is told in between: `Monitor.series_paired`.
-/

namespace Vigil

variable {α β : Type}

namespace Ring

theorem map_appended (f : α → β) (r : Ring α) (t : Nat) (a : α) :
    (r.appended t a).map f = (r.map f).appended t (f a) := by
  simp only [appended, isAtCapacity_map]
  by_cases hfull : r.isAtCapacity
  · simp [map, hfull]
  · simp [map, hfull]

theorem map_push (f : α → β) (r : Ring α) (t : Nat) (a : α) : (r.push t a).map f = (r.map f).push t (f a) := by
  cases h : r.accepts t with
  | false => rw [push_refused h, push_refused (by rwa [accepts_map])]
  | true => rw [push_accepted h, push_accepted (by rwa [accepts_map]), map_prune, map_appended]

theorem entries_push_sublist (r : Ring α) (t : Nat) (a : α) :
    (r.push t a).entries.Sublist (r.entries ++ [⟨t, a⟩]) := by
  cases h : r.accepts t with
  | false =>
    rw [push_refused h]
    exact List.sublist_append_left _ _
  | true =>
    rw [push_accepted h]
    exact ((entries_prune_suffix _ t).trans (entries_appended_suffix r t a)).sublist

end Ring

namespace Monitor

variable {s : Settings}

def paired (r : Ring (Float × Nat)) (reading : Nat × Float × Nat) : Ring (Float × Nat) :=
  r.push reading.1 reading.2

def halves (r : Ring (Float × Nat)) : Ring Float × Ring Nat := (r.map Prod.fst, r.map Prod.snd)

/-- Whether a reading is recorded goes by the ring of the load alone; the ring of the memory never refuses it. -/
theorem sampled_halves (r : Ring (Float × Nat)) (reading : Nat × Float × Nat) :
    sampled (halves r) reading = halves (paired r reading) := by
  obtain ⟨time, cpuPercent, residentBytes⟩ := reading
  simp only [sampled, halves, paired, Ring.accepts_map, Ring.map_push]
  cases h : r.accepts time with
  | false =>
    have hrefused {β : Type} (f : Float × Nat → β) (b : β) : (r.map f).push time b = r.map f :=
      Ring.push_refused (by rwa [Ring.accepts_map])
    rw [hrefused, hrefused]
    rfl
  | true => rfl

def taken (r : Ring (Float × Nat)) : List (Nat × Float × Nat) := r.entries.map fun e => (e.time, e.value)

theorem taken_paired (r : Ring (Float × Nat)) (reading : Nat × Float × Nat) :
    (taken (paired r reading)).Sublist (taken r ++ [reading]) := by
  have hpush := (r.entries_push_sublist reading.1 reading.2).map fun e => (e.time, e.value)
  rwa [List.map_append] at hpush

theorem taken_foldl (r : Ring (Float × Nat)) (readings : List (Nat × Float × Nat)) :
    (taken (readings.foldl paired r)).Sublist (taken r ++ readings) := by
  induction readings generalizing r with
  | nil => rw [List.append_nil]; exact List.Sublist.refl _
  | cons reading readings ih =>
    have hlater := (ih (paired r reading)).trans ((taken_paired r reading).append_right readings)
    rwa [List.append_assoc] at hlater

def wholeSeries (s : Settings) (readings : List (Nat × Float × Nat)) : Ring (Float × Nat) :=
  readings.foldl paired (.empty s.sampling.historyCapacity none)

theorem foldl_sampled (s : Settings) (readings : List (Nat × Float × Nat)) (id : ProcessId) (begun : Nat) :
    readings.foldl sampled (samples (.start s id begun)) = halves (wholeSeries s readings) := by
  show readings.foldl sampled (halves (.empty s.sampling.historyCapacity none)) = _
  exact List.foldl_hom halves sampled_halves

theorem samples_recordSample (t : Tracked) (reading : Nat × Float × Nat) :
    sampled (samples t) reading = samples (t.recordSample reading.1 reading.2.1 reading.2.2) :=
  (samples_evidence t (.call (.reading reading.1 reading.2.1 reading.2.2))).symm

/-- What the two series of a workload hold after some readings: they are the halves of one ring of readings, so
that what stands at one place of both comes from one reading, and a tick judges both by the same readings. -/
structure Paired (s : Settings) (readings : List (Nat × Float × Nat)) (t : Tracked) : Prop where
  times : t.cpuSamples.entries.map (·.time) = t.memSamples.entries.map (·.time)
  calls : (List.zipWith (fun cpu mem => (cpu.time, cpu.value, mem.value)) t.cpuSamples.entries
    t.memSamples.entries).Sublist readings
  series : samples t = halves (wholeSeries s readings)
  judged : ∀ now liveness, (observation s t now liveness).resources =
    .evaluate s.cpu s.memory ((wholeSeries s readings).map Prod.fst) ((wholeSeries s readings).map Prod.snd)

theorem paired_of_series {readings : List (Nat × Float × Nat)} {t : Tracked}
    (h : samples t = halves (wholeSeries s readings)) : Paired s readings t := by
  obtain ⟨hcpu, hmem⟩ := Prod.mk.inj h
  refine ⟨?_, ?_, h, ?_⟩
  · rw [hcpu, hmem, Ring.map, Ring.map, List.map_map, List.map_map]
    rfl
  · have htaken := taken_foldl (.empty s.sampling.historyCapacity none) readings
    rw [hcpu, hmem, Ring.map, Ring.map, List.zipWith_map, List.zipWith_self]
    exact htaken
  · intro now liveness
    rw [observation, hcpu, hmem]

/-- Whatever the readings, also out of order, and whatever else a workload is told in between, its two series are
paired. -/
theorem series_paired (s : Settings) (id : ProcessId) (begun : Nat) :
    (∀ readings : List (Nat × Float × Nat), Paired s readings
      (readings.foldl (fun t q => t.recordSample q.1 q.2.1 q.2.2) (.start s id begun))) ∧
    ∀ acts m, run (act s) (start s id begun) acts = .ok m → Paired s (readings acts) m.tracked := by
  constructor
  · intro readings
    refine paired_of_series ?_
    rw [← foldl_sampled s readings id begun]
    exact (List.foldl_hom samples samples_recordSample).symm
  · intro acts m h
    refine paired_of_series ?_
    rw [run_samples h]
    exact foldl_sampled s (readings acts) id begun

def forgetful : Settings := { sampling := { historyCapacity := 2 } }

/-- The second reading is out of order, the third is as old as the first, and the last one takes its place. -/
def jumpy : List Act :=
  [.call (.reading 2000 10 4096), .call (.line 2100 "ready"), .call (.reading 1000 20 8192),
    .call (.reading 2000 30 12288), .call (.tick 2500 .running), .call (.reading 3000 40 16384)]

theorem jumpy_paired : ∃ m, run (act forgetful) (start forgetful ⟨1, 1⟩ 0) jumpy = .ok m ∧
    m.tracked.cpuSamples.entries = [⟨2000, 30⟩, ⟨3000, 40⟩] ∧
    m.tracked.memSamples.entries = [⟨2000, 12288⟩, ⟨3000, 16384⟩] ∧
    Paired forgetful (readings jumpy) m.tracked := by
  have hrun : (run (act forgetful) (start forgetful ⟨1, 1⟩ 0) jumpy).toOption.map (fun m =>
      (m.tracked.cpuSamples.entries, m.tracked.memSamples.entries)) =
        some ([⟨2000, 30⟩, ⟨3000, 40⟩], [⟨2000, 12288⟩, ⟨3000, 16384⟩]) := by
    decide +kernel
  obtain ⟨m, hm, hboth⟩ := Option.map_eq_some_iff.mp hrun
  obtain ⟨hcpu, hmem⟩ := Prod.mk.inj hboth
  exact ⟨m, ok_of_toOption hm, hcpu, hmem, (series_paired forgetful ⟨1, 1⟩ 0).2 jumpy m (ok_of_toOption hm)⟩

end Monitor

end Vigil
