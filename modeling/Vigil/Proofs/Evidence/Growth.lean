import Mathlib.Data.List.Basic
import Vigil.Evidence.Trend
import Vigil.Proofs.Evidence.History

/-!
# The run of growth at the end of a history

The scan from the newest reading back finds the longest end of the history in which the memory grows with every
reading. `Growth.leaks_iff_growing_end`: since readings are in order of time, a leak is found just when some growing
end is long enough, both in count and in time.
-/

namespace Vigil.Growth

variable {newest e : Stamped Nat} {run g : Growth} {older more es entries : List (Stamped Nat)} {memory : Ring Nat}

-- ---------------------------------------------------------------------------
-- Growing ends
-- ---------------------------------------------------------------------------

def Increasing (es : List (Stamped Nat)) : Prop := es.Pairwise (·.value < ·.value)

/-- The longest end of the readings that is increasing. -/
structure GrowingEnd (entries es : List (Stamped Nat)) : Prop where
  suffix : es <:+ entries
  increasing : Increasing es
  longest : ∀ others, others <:+ entries → Increasing others → others <:+ es

structure Measures (g : Growth) (es : List (Stamped Nat)) : Prop where
  samples : g.samples = es.length
  span : ∀ first ∈ es.head?, ∀ last ∈ es.getLast?, first.time + g.span = last.time
  bytes : ∀ first ∈ es.head?, ∀ last ∈ es.getLast?, first.value + g.bytes = last.value
  nothing : es = [] → g = {}

def Lasts (es : List (Stamped Nat)) (span : Nat) : Prop :=
  ∃ first ∈ es.head?, ∃ last ∈ es.getLast?, first.time + span ≤ last.time

theorem growingEnd_of_break {front : List (Stamped Nat)} (hes : Increasing es)
    (hbreak : ∀ last ∈ front.getLast?, ∀ first ∈ es.head?, first.value ≤ last.value) (hne : es ≠ []) :
    GrowingEnd (front ++ es) es where
  suffix := List.suffix_append front es
  increasing := hes
  longest := by
    intro others hothers hinc
    rcases List.suffix_or_suffix_of_suffix hothers (List.suffix_append front es) with h | ⟨extra, rfl⟩
    · exact h
    have hextra : extra <:+ front := List.suffix_append_self_iff.mp hothers
    cases hlast : extra.getLast? with
    | none =>
      rw [List.getLast?_eq_none_iff.mp hlast]
      exact List.suffix_refl _
    | some last =>
      obtain ⟨first, rest, rfl⟩ := List.exists_cons_of_ne_nil hne
      have hmem : last ∈ extra := List.mem_of_getLast? hlast
      have hfront : front.getLast? = some last := by
        obtain ⟨before, rfl⟩ := hextra
        rw [List.getLast?_append_of_ne_nil _ (List.ne_nil_of_mem hmem), hlast]
      have hlt := (List.pairwise_append.mp hinc).2.2 last hmem first List.mem_cons_self
      exact absurd (hbreak last hfront first rfl) (Nat.not_le.mpr hlt)

theorem Measures.lasts_of_suffix (hg : Measures g entries) (hord : entries.Pairwise (·.time ≤ ·.time))
    (hes : es <:+ entries) {span : Nat} (h : Lasts es span) : es.length ≤ g.samples ∧ span ≤ g.span := by
  obtain ⟨first, hfirst, last, hlast, hle⟩ := h
  obtain ⟨front, rfl⟩ := hes
  have hmem : first ∈ es := List.mem_of_mem_head? hfirst
  have hend : (front ++ es).getLast? = some last := by
    rw [List.getLast?_append_of_ne_nil _ (List.ne_nil_of_mem hmem), hlast]
  have hearlier : ∀ x ∈ (front ++ es).head?, x.time ≤ first.time := by
    intro x hx
    cases front with
    | nil =>
      cases (hx.symm.trans hfirst)
      exact Nat.le_refl _
    | cons y front =>
      cases hx
      exact (List.pairwise_cons.mp hord).1 first (List.mem_append_right _ hmem)
  obtain ⟨x, hx⟩ := Option.isSome_iff_exists.mp
    (List.isSome_head?.mpr (List.append_ne_nil_of_right_ne_nil front (List.ne_nil_of_mem hmem)))
  have hspan := hg.span x hx last hend
  have hx := hearlier x hx
  rw [hg.samples, List.length_append]
  omega

-- ---------------------------------------------------------------------------
-- The scan
-- ---------------------------------------------------------------------------

def grown (newest : Stamped Nat) (run : Growth) (more : List (Stamped Nat)) : Growth :=
  match more.getLast? with
  | none => run
  | some oldest => ⟨run.samples + more.length, newest.time - oldest.time, newest.value - oldest.value⟩

theorem grown_cons (newest e : Stamped Nat) (run : Growth) (more : List (Stamped Nat)) :
    grown newest ⟨run.samples + 1, newest.time - e.time, newest.value - e.value⟩ more =
      grown newest run (e :: more) := by
  cases more with
  | nil => rfl
  | cons x more =>
    simp only [grown, List.getLast?_cons_cons, List.length_cons]
    cases hlast : (x :: more).getLast? with
    | none => simp at hlast
    | some oldest => simp only [Growth.mk.injEq, and_true]; omega

theorem extend_eq (newest e : Stamped Nat) (run : Growth) (older : List (Stamped Nat)) :
    ∃ more rest, older = more ++ rest ∧ (e :: more).Pairwise (·.value > ·.value) ∧
      (∀ next ∈ rest.head?, ∀ oldest ∈ (e :: more).getLast?, oldest.value ≤ next.value) ∧
      extend newest e.value run older = grown newest run more := by
  induction older generalizing e run with
  | nil => exact ⟨[], [], rfl, List.pairwise_singleton _ _, by simp, rfl⟩
  | cons x older ih =>
    by_cases hx : x.value < e.value
    · obtain ⟨more, rest, rfl, hfalls, hbreak, heq⟩ :=
        ih x ⟨run.samples + 1, newest.time - x.time, newest.value - x.value⟩
      refine ⟨x :: more, rest, rfl, List.pairwise_cons.mpr ⟨?_, hfalls⟩, ?_, ?_⟩
      · intro y hy
        rcases List.mem_cons.mp hy with rfl | hy
        · exact hx
        · exact Nat.lt_trans ((List.pairwise_cons.mp hfalls).1 y hy) hx
      · rwa [List.getLast?_cons_cons]
      · rw [extend, if_pos hx, heq, grown_cons]
    · refine ⟨[], x :: older, rfl, List.pairwise_singleton _ _, ?_, ?_⟩
      · rintro next ⟨⟩ oldest ⟨⟩
        exact Nat.not_lt.mp hx
      · rw [extend, if_neg hx]
        rfl

/-- The scan finds the longest increasing end and measures it. -/
theorem trailing_growingEnd (hord : memory.Ordered) :
    ∃ es, GrowingEnd memory.entries es ∧ Measures (trailing memory) es := by
  unfold Ring.Ordered at hord
  cases hrev : memory.entries.reverse with
  | nil =>
    have hnone : memory.entries = [] := List.reverse_eq_nil_iff.mp hrev
    have hdefault : trailing memory = {} := by rw [trailing, hrev]
    rw [hnone, hdefault]
    exact ⟨[], ⟨List.nil_suffix, .nil, fun _ h _ => h⟩, ⟨rfl, by simp, by simp, fun _ => rfl⟩⟩
  | cons newest older =>
    obtain ⟨more, rest, rfl, hfalls, hbreak, heq⟩ := extend_eq newest newest ⟨1, 0, 0⟩ older
    have hentries : memory.entries = rest.reverse ++ (newest :: more).reverse := by
      rw [← List.reverse_reverse memory.entries, hrev, ← List.reverse_append]
      rfl
    have hincreasing : Increasing (newest :: more).reverse := List.pairwise_reverse.mpr hfalls
    have htrailing : trailing memory = grown newest ⟨1, 0, 0⟩ more := by
      rw [trailing, hrev]
      exact heq
    rw [hentries] at hord
    refine ⟨(newest :: more).reverse, hentries ▸ growingEnd_of_break hincreasing ?_ (by simp), ?_⟩
    · rw [List.getLast?_reverse, List.head?_reverse]
      exact hbreak
    -- the readings from the oldest of the run on are neither later nor larger than the newest one
    have hearlier := (List.pairwise_append.mp hord).2.1
    rw [List.pairwise_reverse] at hearlier
    rw [htrailing, grown]
    cases hlast : more.getLast? with
    | none =>
      rw [List.getLast?_eq_none_iff.mp hlast]
      exact ⟨rfl, by simp, by simp, by simp⟩
    | some oldest =>
      have hmem : oldest ∈ more := List.mem_of_getLast? hlast
      have htime : oldest.time ≤ newest.time := (List.pairwise_cons.mp hearlier).1 oldest hmem
      have hvalue : oldest.value < newest.value := (List.pairwise_cons.mp hfalls).1 oldest hmem
      have hfirst : (newest :: more).reverse.head? = some oldest := by
        rw [List.head?_reverse, List.getLast?_cons, hlast]
        rfl
      have hend : (newest :: more).reverse.getLast? = some newest := by
        rw [List.getLast?_reverse]
        rfl
      refine ⟨by simp [Nat.add_comm], ?_, ?_, by simp⟩
      · rw [hfirst, hend]
        rintro first ⟨⟩ last ⟨⟩
        exact Nat.add_sub_cancel' htime
      · rw [hfirst, hend]
        rintro first ⟨⟩ last ⟨⟩
        exact Nat.add_sub_cancel' (Nat.le_of_lt hvalue)

-- ---------------------------------------------------------------------------
-- No difference below zero
-- ---------------------------------------------------------------------------

/-- The scan that fails where a difference of bytes would fall below zero. -/
def extendChecked (newest : Stamped Nat) (later : Nat) (run : Growth) : List (Stamped Nat) → Option Growth
  | [] => some run
  | e :: older =>
    if e.value < later then
      if e.value ≤ newest.value then
        extendChecked newest e.value ⟨run.samples + 1, newest.time - e.time, newest.value - e.value⟩ older
      else none
    else some run

def trailingChecked (memory : Ring Nat) : Option Growth :=
  match memory.entries.reverse with
  | [] => some {}
  | newest :: older => extendChecked newest newest.value ⟨1, 0, 0⟩ older

theorem extendChecked_eq {later : Nat} (h : later ≤ newest.value) (run : Growth) (older : List (Stamped Nat)) :
    extendChecked newest later run older = some (extend newest later run older) := by
  induction older generalizing later run with
  | nil => rfl
  | cons e older ih =>
    rw [extendChecked, extend]
    split
    · rename_i hlt
      have hle : e.value ≤ newest.value := Nat.le_trans (Nat.le_of_lt hlt) h
      rw [if_pos hle, ih hle]
    · rfl

theorem trailingChecked_eq (memory : Ring Nat) : trailingChecked memory = some (trailing memory) := by
  unfold trailingChecked trailing
  cases memory.entries.reverse with
  | nil => rfl
  | cons newest older => exact extendChecked_eq (Nat.le_refl _) _ _

-- ---------------------------------------------------------------------------
-- Leaks
-- ---------------------------------------------------------------------------

theorem isLeak_iff {s : Settings.Memory} (hs : 2 ≤ s.leakMinSamples) (hord : memory.Ordered) :
    Resources.isLeak s (trailing memory) ↔
      ∃ es, es <:+ memory.entries ∧ Increasing es ∧ s.leakMinSamples ≤ es.length ∧ Lasts es s.leakMinSpan := by
  obtain ⟨es, hend, hmeasures⟩ := trailing_growingEnd hord
  rw [Resources.isLeak, Bool.and_eq_true, decide_eq_true_eq, decide_eq_true_eq]
  constructor
  · rintro ⟨hcount, hspan⟩
    rw [hmeasures.samples] at hcount
    have hne : es ≠ [] := List.ne_nil_of_length_pos (by omega)
    obtain ⟨first, hfirst⟩ := Option.isSome_iff_exists.mp (List.isSome_head?.mpr hne)
    obtain ⟨last, hlast⟩ := Option.isSome_iff_exists.mp (List.getLast?_isSome.mpr hne)
    have hexact := hmeasures.span first hfirst last hlast
    exact ⟨es, hend.suffix, hend.increasing, hcount, first, hfirst, last, hlast, by omega⟩
  · rintro ⟨others, hsuffix, hinc, hcount, hlasts⟩
    have hordered := hord.sublist hend.suffix.sublist
    obtain ⟨hlength, hspan⟩ := hmeasures.lasts_of_suffix hordered (hend.longest others hsuffix hinc) hlasts
    exact ⟨Nat.le_trans hcount hlength, hspan⟩

theorem Increasing.last_lt (h : Increasing es) (hes : es <:+ entries) (hlong : 2 ≤ es.length)
    {front : List (Stamped Nat)} {a b : Stamped Nat} (hlast : entries = front ++ [a, b]) : a.value < b.value := by
  have hpair : [a, b] <:+ es := by
    refine List.suffix_of_suffix_length_le ?_ hes hlong
    rw [hlast]
    exact List.suffix_append _ _
  have hab := h.sublist hpair.sublist
  exact (List.pairwise_cons.mp hab).1 b List.mem_cons_self

theorem leaks_iff_growing_end (capacity : Nat) (maxAge : Option Nat) (requests : List (Ring.Request Nat))
    (memory : Ring Nat) (hmemory : memory = requests.foldl Ring.serve (.empty capacity maxAge))
    (cpu : Settings.Cpu) (cpuSamples : Ring Float) (s : Settings.Memory) (hs : 2 ≤ s.leakMinSamples) :
    (∃ es, GrowingEnd memory.entries es ∧
      Measures (Resources.evaluate cpu s cpuSamples memory).growth es) ∧
    trailingChecked memory = some (Resources.evaluate cpu s cpuSamples memory).growth ∧
    ((Resources.evaluate cpu s cpuSamples memory).leaking ↔
      ∃ es, es <:+ memory.entries ∧ Increasing es ∧ s.leakMinSamples ≤ es.length ∧ Lasts es s.leakMinSpan) ∧
    ∀ front a b, memory.entries = front ++ [a, b] → b.value ≤ a.value →
      ¬ (Resources.evaluate cpu s cpuSamples memory).leaking := by
  have hord : memory.Ordered := hmemory ▸ (Ring.faithful_to_history capacity maxAge requests).ordered
  refine ⟨trailing_growingEnd hord, trailingChecked_eq memory, isLeak_iff hs hord, ?_⟩
  intro front a b hlast hle hleaks
  obtain ⟨es, hsuffix, hinc, hcount, -⟩ := (isLeak_iff hs hord).mp hleaks
  exact absurd (hinc.last_lt hsuffix (Nat.le_trans hs hcount) hlast) (Nat.not_lt.mpr hle)

def climbing : List (Ring.Request Nat) :=
  [.push 0 9, .push 1000 4, .push 2000 5, .push 1500 8, .push 3000 7]

theorem climbing_leaks :
    let memory := climbing.foldl Ring.serve (.empty 3 none)
    memory.entries = [⟨1000, 4⟩, ⟨2000, 5⟩, ⟨3000, 7⟩] ∧ trailing memory = ⟨3, 2000, 3⟩ ∧
      (Resources.evaluate {} ⟨3, 2⟩ (.empty 3 none) memory).leaking := by
  have hes : [⟨1000, 4⟩, ⟨2000, 5⟩, ⟨3000, 7⟩] <:+ (climbing.foldl Ring.serve (.empty 3 none)).entries := by decide
  have hleaks := (leaks_iff_growing_end 3 none climbing _ rfl {} (.empty 3 none) ⟨3, 2⟩ (by decide)).2.2.1.mpr
    ⟨_, hes, by simp [Increasing], by decide, ⟨1000, 4⟩, rfl, ⟨3000, 7⟩, rfl, by decide⟩
  exact ⟨by decide, by decide, hleaks⟩

end Vigil.Growth
