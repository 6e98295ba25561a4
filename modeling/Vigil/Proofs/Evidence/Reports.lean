import Mathlib.Data.List.Sort
import Mathlib.Order.Fin.Basic
import Vigil.Evidence.Repetition
import Vigil.Proofs.Decimal.Rounding
import Vigil.Proofs.Evidence.Groups
import Vigil.Proofs.Evidence.Rings

/-!
# What reports depend on

The report on a log window is made of three counts: the lines in the largest group of equal lines, those in the
largest group of one shape, and the different lines. `Repetition.detect_rekey`: it is the same whatever the keys
are, as long as the same ones are equal, and in whatever order the tables of groups are gone through.
`Repetition.report_by_counts`: how the three counts are related, and what they decide.
-/

namespace Vigil

variable {α β κ ν : Type}

-- ---------------------------------------------------------------------------
-- Other keys in their place
-- ---------------------------------------------------------------------------

def Fingerprint.rekey (f g : κ → ν) (p : Fingerprint κ) : Fingerprint ν := ⟨f p.exact, g p.shape, p.progress⟩

theorem Fingerprint.exists_leads [DecidableEq κ] {lines : List (Fingerprint κ)} (key : Fingerprint κ → κ)
    (hne : lines ≠ []) : ∃ k, KeyGroup.Leads (lines.map key) k ∧
      KeyGroup.dominant? (lines.map key) = some (.of (lines.map key) k) :=
  KeyGroup.exists_leads (by simpa using hne)

namespace Repetition

variable {s : Settings.Logs} {lines : List (Fingerprint κ)} {f g : κ → ν}

theorem isFull_map (h : Fingerprint κ → Fingerprint ν) (window : Ring (Fingerprint κ)) :
    isFull s (window.map h) = isFull s window := by
  rw [isFull, Ring.isAtCapacity, Ring.size_map]
  rfl

variable [DecidableEq κ] [DecidableEq ν] {topExact topShape : KeyGroup κ}

def judge (s : Settings.Logs) (lines : List (Fingerprint κ)) (topExact topShape : KeyGroup κ)
    (different : Nat) : Repetition :=
  let len := Float.ofNat lines.length
  let exactFraction := Float.ofNat topExact.count / len
  let shapeFraction := Float.ofNat topShape.count / len
  let rawDiversity := Float.ofNat different / len
  let verdict :=
    if s.exactThreshold ≤ exactFraction then .exactLoop
    else if s.fuzzyThreshold ≤ shapeFraction then .fuzzyLoop
    else .varied
  { verdict, windowLen := lines.length, exactFraction, shapeFraction, rawDiversity,
    progressLike := verdict = .fuzzyLoop && s.progressDiversity ≤ rawDiversity &&
      halfMarked lines topShape.key }

theorem ofLines_eq (hexact : KeyGroup.dominant? (lines.map (·.exact)) = some topExact)
    (hshape : KeyGroup.dominant? (lines.map (·.shape)) = some topShape) :
    ofLines s lines = judge s lines topExact topShape (KeyGroup.distinct (lines.map (·.exact))) := by
  simp only [ofLines, hexact, hshape, judge]

theorem halfMarked_rekey (hg : g.Injective) (lines : List (Fingerprint κ)) (shape : κ) :
    halfMarked (lines.map (Fingerprint.rekey f g)) (g shape) = halfMarked lines shape := by
  have hmembers : (lines.map (Fingerprint.rekey f g)).filter (fun p => p.shape = g shape) =
      (lines.filter fun p => p.shape = shape).map (Fingerprint.rekey f g) := by
    rw [List.filter_map]
    congr 1
    refine List.filter_congr fun p _ => ?_
    simp [Fingerprint.rekey, hg.eq_iff]
  have hmarked : ((lines.filter fun p => p.shape = shape).map (Fingerprint.rekey f g)).filter (·.progress) =
      ((lines.filter fun p => p.shape = shape).filter (·.progress)).map (Fingerprint.rekey f g) :=
    List.filter_map
  simp only [halfMarked, hmembers, hmarked, List.length_map]

theorem judge_rekey (hg : g.Injective) (lines : List (Fingerprint κ)) (different : Nat) :
    judge s (lines.map (Fingerprint.rekey f g)) (topExact.rekey f) (topShape.rekey g) different =
      judge s lines topExact topShape different := by
  have hmarked : halfMarked (lines.map (Fingerprint.rekey f g)) (topShape.rekey g).key =
      halfMarked lines topShape.key := halfMarked_rekey hg lines topShape.key
  rw [judge, hmarked, List.length_map]
  rfl

theorem ofLines_rekey (hf : f.Injective) (hg : g.Injective) (lines : List (Fingerprint κ)) :
    ofLines s (lines.map (Fingerprint.rekey f g)) = ofLines s lines := by
  have hexacts : (lines.map (Fingerprint.rekey f g)).map (·.exact) = (lines.map (·.exact)).map f := by
    simp [Fingerprint.rekey]
  have hshapes : (lines.map (Fingerprint.rekey f g)).map (·.shape) = (lines.map (·.shape)).map g := by
    simp [Fingerprint.rekey]
  by_cases hne : lines = []
  · subst hne
    rfl
  obtain ⟨k, -, hexact⟩ := Fingerprint.exists_leads (·.exact) hne
  obtain ⟨l, -, hshape⟩ := Fingerprint.exists_leads (·.shape) hne
  have hexact' := KeyGroup.dominant?_map hf (lines.map (·.exact))
  have hshape' := KeyGroup.dominant?_map hg (lines.map (·.shape))
  rw [← hexacts, hexact] at hexact'
  rw [← hshapes, hshape] at hshape'
  rw [ofLines_eq hexact' hshape', ofLines_eq hexact hshape, hexacts, KeyGroup.distinct_map hf, judge_rekey hg]

-- ---------------------------------------------------------------------------
-- Tables in any order
-- ---------------------------------------------------------------------------

/-- What a report is worked out with: the tables of the groups, each in some order, and the keys of the lines
sorted in some way. -/
structure Workings (κ : Type) where
  exacts : List (KeyGroup.Tally κ)
  shapes : List (KeyGroup.Tally κ)
  sorted : List κ

def runs : List κ → Nat
  | [] => 0
  | [_] => 1
  | a :: b :: keys => (if a = b then 0 else 1) + runs (b :: keys)

def detectFrom (s : Settings.Logs) (window : Ring (Fingerprint κ)) (w : Workings κ) : Repetition :=
  if isFull s window then
    match KeyGroup.leader w.exacts, KeyGroup.leader w.shapes with
    | some topExact, some topShape => judge s window.values topExact.group topShape.group (runs w.sorted)
    | _, _ => unjudged 0
  else unjudged window.size

end Repetition

namespace Repetition

variable [LinearOrder κ] {s : Settings.Logs} {lines : List (Fingerprint κ)} {keys sorted : List κ}
  {window : Ring (Fingerprint κ)} {w : Workings κ}

structure Workings.Fits (w : Workings κ) (lines : List (Fingerprint κ)) : Prop where
  exacts : w.exacts.Perm (KeyGroup.tally (lines.map (·.exact)))
  shapes : w.shapes.Perm (KeyGroup.tally (lines.map (·.shape)))
  keys : w.sorted.Perm (lines.map (·.exact))
  ordered : w.sorted.Pairwise (· ≤ ·)

theorem runs_eq_card (h : keys.Pairwise (· ≤ ·)) : runs keys = keys.toFinset.card := by
  induction keys with
  | nil => rfl
  | cons a keys ih =>
    obtain ⟨hleast, hrest⟩ := List.pairwise_cons.mp h
    cases keys with
    | nil => rfl
    | cons b keys =>
      rw [runs, ih hrest, List.toFinset_cons (a := a)]
      by_cases hab : a = b
      · rw [if_pos hab, Nat.zero_add, Finset.insert_eq_self.mpr (by simp [hab])]
      · -- a key that is below its neighbour is below all others
        have hnew : a ∉ b :: keys := by
          intro hmem
          have hb := hleast b List.mem_cons_self
          rcases List.mem_cons.mp hmem with heq | hlater
          · exact hab heq
          · exact hab (le_antisymm hb ((List.pairwise_cons.mp hrest).1 a hlater))
        rw [if_neg hab, Finset.card_insert_of_notMem (by rwa [List.mem_toFinset]), Nat.add_comm]

theorem runs_sorted (hperm : sorted.Perm keys) (h : sorted.Pairwise (· ≤ ·)) :
    runs sorted = KeyGroup.distinct keys := by
  rw [runs_eq_card h, KeyGroup.distinct_eq_card, List.toFinset_eq_of_perm _ _ hperm]

theorem exists_fits (lines : List (Fingerprint κ)) : ∃ w : Workings κ, w.Fits lines :=
  ⟨⟨KeyGroup.tally (lines.map (·.exact)), KeyGroup.tally (lines.map (·.shape)),
      (lines.map (·.exact)).insertionSort (· ≤ ·)⟩,
    .refl _, .refl _, List.perm_insertionSort _ _, List.pairwise_insertionSort _ _⟩

theorem detectFrom_eq (h : w.Fits window.values) : detectFrom s window w = detect s window := by
  unfold detectFrom detect
  split
  · have hexact := KeyGroup.leader_perm_tally h.exacts
    have hshape := KeyGroup.leader_perm_tally h.shapes
    by_cases hne : window.values = []
    · rw [hne] at hexact
      rw [Option.map_eq_none_iff.mp hexact, hne]
      rfl
    · obtain ⟨k, -, hk⟩ := Fingerprint.exists_leads (·.exact) hne
      obtain ⟨l, -, hl⟩ := Fingerprint.exists_leads (·.shape) hne
      obtain ⟨e, he, heq⟩ := Option.map_eq_some_iff.mp (hexact.trans hk)
      obtain ⟨e', he', heq'⟩ := Option.map_eq_some_iff.mp (hshape.trans hl)
      rw [ofLines_eq hk hl, he, he', ← heq, ← heq', ← runs_sorted h.keys h.ordered]
  · rfl

end Repetition

namespace Repetition

variable [DecidableEq κ] [LinearOrder ν] {f g : κ → ν}

/-- A report depends on which keys are equal and on nothing else: other keys in their place, tables gone
through in any order and keys sorted in any way lead to the same one. -/
theorem detect_rekey (hf : f.Injective) (hg : g.Injective) (s : Settings.Logs)
    (window : Ring (Fingerprint κ)) :
    detect s (window.map (.rekey f g)) = detect s window ∧
      ∀ w : Workings ν, w.Fits (window.map (.rekey f g)).values →
        detectFrom s (window.map (.rekey f g)) w = detect s window := by
  have hsame : detect s (window.map (.rekey f g)) = detect s window := by
    rw [detect, detect, isFull_map, Ring.size_map, Ring.values_map, ofLines_rekey hf hg]
  exact ⟨hsame, fun w hw => (detectFrom_eq hw).trans hsame⟩

def tied : Ring (Fingerprint (Fin (2 ^ 64))) :=
  [⟨1, 10, false⟩, ⟨2, 20, true⟩, ⟨3, 10, false⟩, ⟨4, 20, true⟩].foldl (fun r p => r.push 0 p) (.empty 4 none)

theorem detect_reversed : (Fin.rev : Fin (2 ^ 64) → Fin (2 ^ 64)).Injective ∧
    detect { fuzzyThreshold := 0.5 } (tied.map (.rekey Fin.rev Fin.rev)) =
      detect { fuzzyThreshold := 0.5 } tied ∧
    ∀ w : Workings (Fin (2 ^ 64)), w.Fits (tied.map (.rekey Fin.rev Fin.rev)).values →
      detectFrom { fuzzyThreshold := 0.5 } (tied.map (.rekey Fin.rev Fin.rev)) w =
        detect { fuzzyThreshold := 0.5 } tied :=
  ⟨Fin.rev_injective, detect_rekey Fin.rev_injective Fin.rev_injective _ tied⟩

example : (detect { fuzzyThreshold := 0.5 } tied).progressLike := by decide +kernel

end Repetition

-- ---------------------------------------------------------------------------
-- Counts
-- ---------------------------------------------------------------------------

structure Census where
  lines : Nat
  largestExact : Nat
  largestShape : Nat
  different : Nat
  deriving DecidableEq, Repr

namespace Census

variable [DecidableEq κ] {lines : List (Fingerprint κ)}

def of (lines : List (Fingerprint κ)) : Census where
  lines := lines.length
  largestExact := KeyGroup.largest (lines.map (·.exact))
  largestShape := KeyGroup.largest (lines.map (·.shape))
  different := KeyGroup.distinct (lines.map (·.exact))

structure Sound (c : Census) : Prop where
  exact_pos : 1 ≤ c.largestExact
  exact_le_shape : c.largestExact ≤ c.largestShape
  shape_le_lines : c.largestShape ≤ c.lines
  different_add_exact : c.different + c.largestExact ≤ c.lines + 1

theorem of_sound (hne : lines ≠ []) (hshape : ∀ p ∈ lines, ∀ q ∈ lines, p.exact = q.exact → p.shape = q.shape) :
    (of lines).Sound := by
  obtain ⟨k, hk, -⟩ := Fingerprint.exists_leads (·.exact) hne
  obtain ⟨l, hl, -⟩ := Fingerprint.exists_leads (·.shape) hne
  have hcount (p : Fingerprint κ) (hp : p ∈ lines) :
      (lines.map (·.exact)).count p.exact ≤ (lines.map (·.shape)).count p.shape := by
    rw [List.count_eq_countP, List.count_eq_countP, List.countP_map, List.countP_map]
    refine List.countP_mono_left fun q hq hequal => ?_
    simpa using hshape q hq p hp (by simpa using hequal)
  obtain ⟨p, hp, hpk⟩ := List.mem_map.mp hk.mem
  refine ⟨?_, ?_, ?_, ?_⟩
  · rw [of, hk.largest]
    exact hk.count_pos
  · rw [of, hk.largest, hl.largest, ← hpk]
    exact (hcount p hp).trans (hl.count_le p.shape)
  · rw [of, hl.largest]
    exact List.count_le_length.trans_eq (List.length_map _)
  · rw [of, hk.largest]
    exact (KeyGroup.distinct_add_count_le _ k).trans_eq (by rw [List.length_map])

end Census

-- ---------------------------------------------------------------------------
-- What the counts decide
-- ---------------------------------------------------------------------------

theorem Fingerprint.shape_of_exact {a b : String} (h : (ofLine a).exact = (ofLine b).exact) :
    (ofLine a).shape = (ofLine b).shape := by
  have htext : trimLineEnd a.toList = trimLineEnd b.toList := String.ofList_injective h
  rw [ofLine, ofLine, htext]

namespace Repetition

open Decimal (value? rational rational_le rational_lt)

variable [DecidableEq κ] {s : Settings.Logs} {window : Ring (Fingerprint κ)} {lines : List (Fingerprint κ)}
  {topExact topShape : KeyGroup κ} {different part whole : Nat} {t u : Float} {c : Census}

/-- So many of all lines are as large a share of them as a threshold demands, in exact numbers. -/
def Reaches (t : Float) (part whole : Nat) : Prop := ∃ v ∈ value? t, v ≤ rational (part / whole)

def FallsShort (t : Float) (part whole : Nat) : Prop := ∃ v ∈ value? t, rational (part / whole) < v

/-- The shares of a report are on the same sides of their thresholds as they are without rounding. -/
structure ComparedExactly (s : Settings.Logs) (c : Census) : Prop where
  exact : s.exactThreshold ≤ .ofNat c.largestExact / .ofNat c.lines ↔
    Reaches s.exactThreshold c.largestExact c.lines
  shape : s.fuzzyThreshold ≤ .ofNat c.largestShape / .ofNat c.lines ↔
    Reaches s.fuzzyThreshold c.largestShape c.lines
  diversity : s.progressDiversity ≤ .ofNat c.different / .ofNat c.lines ↔
    Reaches s.progressDiversity c.different c.lines

theorem fallsShort_iff (h : (value? t).isSome) : FallsShort t part whole ↔ ¬ Reaches t part whole := by
  obtain ⟨v, hv⟩ := Option.isSome_iff_exists.mp h
  simp [FallsShort, Reaches, hv]

theorem Reaches.of_le {more : Nat} (h : Reaches u part whole) (htu : t ≤ u) (hmore : part ≤ more) :
    Reaches t more whole := by
  obtain ⟨w, hw, hle⟩ := h
  obtain ⟨v, hv, w', hw', hvw⟩ := Decimal.le_iff.mp htu
  obtain rfl : w = w' := Option.some.inj (hw.symm.trans hw')
  refine ⟨v, hv, (hvw.trans hle).trans (rational_le.mpr ?_)⟩
  exact div_le_div_of_nonneg_right (Nat.cast_le.mpr hmore) (Nat.cast_nonneg whole)

theorem judge_varied_iff : (judge s lines topExact topShape different).verdict = .varied ↔
    ¬ s.exactThreshold ≤ .ofNat topExact.count / .ofNat lines.length ∧
      ¬ s.fuzzyThreshold ≤ .ofNat topShape.count / .ofNat lines.length := by
  unfold judge
  dsimp only
  split
  · simp [*]
  · split <;> simp [*]

theorem judge_fuzzy_iff : (judge s lines topExact topShape different).verdict = .fuzzyLoop ↔
    ¬ s.exactThreshold ≤ .ofNat topExact.count / .ofNat lines.length ∧
      s.fuzzyThreshold ≤ .ofNat topShape.count / .ofNat lines.length := by
  unfold judge
  dsimp only
  split
  · simp [*]
  · split <;> simp [*]

theorem judge_progressLike_iff : (judge s lines topExact topShape different).progressLike ↔
    (judge s lines topExact topShape different).verdict = .fuzzyLoop ∧
      s.progressDiversity ≤ .ofNat different / .ofNat lines.length ∧ halfMarked lines topShape.key := by
  simp [judge, and_assoc]

theorem detect_eq_judge (hfull : isFull s window) (hne : window.values ≠ []) :
    ∃ exact shape, KeyGroup.Leads (window.values.map (·.shape)) shape ∧
      detect s window = judge s window.values ⟨exact, (Census.of window.values).largestExact⟩
        ⟨shape, (Census.of window.values).largestShape⟩ (Census.of window.values).different := by
  obtain ⟨k, hk, hexact⟩ := Fingerprint.exists_leads (·.exact) hne
  obtain ⟨l, hl, hshape⟩ := Fingerprint.exists_leads (·.shape) hne
  refine ⟨k, l, hl, ?_⟩
  rw [detect, if_pos hfull, ofLines_eq hexact hshape, Census.of, hk.largest, hl.largest]
  rfl

/-- Shares that are not rounded onto their thresholds are compared exactly. -/
theorem comparedExactly_of_ne (hc : c.Sound) (hlog : c.lines.log2 ≤ 52)
    (hexact : ¬ Float.ofNat c.largestExact / .ofNat c.lines == s.exactThreshold)
    (hshape : ¬ Float.ofNat c.largestShape / .ofNat c.lines == s.fuzzyThreshold)
    (hdifferent : ¬ Float.ofNat c.different / .ofNat c.lines == s.progressDiversity) :
    ComparedExactly s c := by
  obtain ⟨hpos, hle, hmost, hsum⟩ := hc
  have hshare {part : Nat} (hpart : part ≤ c.lines) {t : Float}
      (hne : ¬ Float.ofNat part / .ofNat c.lines == t) :
      t ≤ .ofNat part / .ofNat c.lines ↔ Reaches t part c.lines := by
    have hsmall : part.log2 ≤ 52 := by
      rcases Nat.eq_zero_or_pos part with rfl | hposPart
      · decide
      · exact (Count.log2_mono hposPart hpart).trans hlog
    exact Decimal.le_div_iff (Count.value?_small hsmall) (Nat.cast_nonneg part) (Count.value?_small hlog)
      (Nat.cast_pos.mpr (by omega)) hne
  exact ⟨hshare (by omega) hexact, hshare hmost hshape, hshare (by omega) hdifferent⟩

/-- How the counts of a full window of lines are related, if lines that differ are told apart, and what they
decide, if shares are compared exactly: the larger of the two groups is that of a shape, so no loop is hidden by
looking for lines that are equal first, and lines that read as progress hardly repeat. -/
theorem report_by_counts (he hs : String → κ) (texts : List String)
    (hvalues : window.values = texts.map fun l => (Fingerprint.ofLine l).rekey he hs)
    (hapart : ∀ a ∈ texts, ∀ b ∈ texts, he (Fingerprint.ofLine a).exact = he (Fingerprint.ofLine b).exact →
      (Fingerprint.ofLine a).exact = (Fingerprint.ofLine b).exact)
    (hfull : isFull s window) (hsome : 1 ≤ window.size) :
    (Census.of window.values).lines = window.size ∧ (Census.of window.values).Sound ∧
      (ComparedExactly s (Census.of window.values) → s.fuzzyThreshold ≤ s.exactThreshold →
        ((detect s window).verdict = .varied ↔
          FallsShort s.fuzzyThreshold (Census.of window.values).largestShape window.size) ∧
        ((detect s window).progressLike →
          Reaches s.progressDiversity (Census.of window.values).different window.size ∧
            FallsShort s.exactThreshold (Census.of window.values).largestExact window.size ∧
            (Census.of window.values).largestExact ≤ window.size + 1 - (Census.of window.values).different ∧
            ∃ shape, KeyGroup.Leads (window.values.map (·.shape)) shape ∧ halfMarked window.values shape)) := by
  have hlines : (Census.of window.values).lines = window.size := by simp [Census.of, Ring.values, Ring.size]
  have hne : window.values ≠ [] := by
    refine List.ne_nil_of_length_pos ?_
    have hlength : window.values.length = window.size := hlines
    omega
  have hsound : (Census.of window.values).Sound := by
    refine Census.of_sound hne ?_
    rw [hvalues]
    intro p hp q hq hequal
    obtain ⟨a, ha, rfl⟩ := List.mem_map.mp hp
    obtain ⟨b, hb, rfl⟩ := List.mem_map.mp hq
    exact congrArg hs (Fingerprint.shape_of_exact (hapart a ha b hb hequal))
  refine ⟨hlines, hsound, fun hcompared hordered => ?_⟩
  obtain ⟨exact, shape, hleads, hdetect⟩ := detect_eq_judge hfull hne
  obtain ⟨a, ha, b, hb, -⟩ := Decimal.le_iff.mp hordered
  have hfuzzy : (value? s.fuzzyThreshold).isSome := Option.isSome_iff_exists.mpr ⟨a, ha⟩
  have hexact : (value? s.exactThreshold).isSome := Option.isSome_iff_exists.mpr ⟨b, hb⟩
  obtain ⟨c, hc⟩ : ∃ c, Census.of window.values = c := ⟨_, rfl⟩
  have hlength : window.values.length = c.lines := hc ▸ rfl
  rw [hdetect, ← hlines]
  rw [hc] at hsound hcompared ⊢
  constructor
  · rw [judge_varied_iff, hlength, hcompared.exact, hcompared.shape, fallsShort_iff hfuzzy]
    refine and_iff_right_of_imp fun hshape hloop => hshape ?_
    exact hloop.of_le hordered hsound.exact_le_shape
  · rw [judge_progressLike_iff, judge_fuzzy_iff, hlength, hcompared.exact, hcompared.shape, hcompared.diversity,
      fallsShort_iff hexact]
    rintro ⟨⟨hnoLoop, -⟩, hdiverse, hmarked⟩
    have hsum := hsound.different_add_exact
    exact ⟨hdiverse, hnoLoop, by omega, shape, hleads, hmarked⟩

def hashOf (text : String) : Nat := text.toList.foldl (fun h c => (h * 31 + c.toNat) % 2 ^ 64) 7

def working : List String := ["step 1 done", "step 2 done", "step 3 done\r\n", "idle"]

def windowOf (texts : List String) : Ring (Fingerprint Nat) :=
  texts.foldl (fun r l => r.push 0 ((Fingerprint.ofLine l).rekey hashOf hashOf)) (.empty texts.length none)

theorem working_counted :
    ((windowOf working).values = working.map (fun l => (Fingerprint.ofLine l).rekey hashOf hashOf) ∧
      (∀ a ∈ working, ∀ b ∈ working, hashOf (Fingerprint.ofLine a).exact = hashOf (Fingerprint.ofLine b).exact →
        (Fingerprint.ofLine a).exact = (Fingerprint.ofLine b).exact) ∧
      isFull {} (windowOf working) ∧ 1 ≤ (windowOf working).size ∧
      ComparedExactly {} (Census.of (windowOf working).values) ∧
      (detect {} (windowOf working)).progressLike) ∧
    Census.of (windowOf working).values = ⟨4, 1, 3, 4⟩ ∧
    Reaches ({} : Settings.Logs).progressDiversity 4 4 ∧ FallsShort ({} : Settings.Logs).exactThreshold 1 4 := by
  have hvalues : (windowOf working).values =
      working.map (fun l => (Fingerprint.ofLine l).rekey hashOf hashOf) := by decide +kernel
  have hapart : ∀ a ∈ working, ∀ b ∈ working,
      hashOf (Fingerprint.ofLine a).exact = hashOf (Fingerprint.ofLine b).exact →
        (Fingerprint.ofLine a).exact = (Fingerprint.ofLine b).exact := by decide +kernel
  have hfull : isFull {} (windowOf working) := by decide +kernel
  have hsome : 1 ≤ (windowOf working).size := by decide +kernel
  have hcounts : Census.of (windowOf working).values = ⟨4, 1, 3, 4⟩ := by decide +kernel
  have hprogress : (detect {} (windowOf working)).progressLike := by decide +kernel
  obtain ⟨-, hsound, hdecides⟩ := report_by_counts hashOf hashOf working hvalues hapart hfull hsome
  have hcompared : ComparedExactly {} (Census.of (windowOf working).values) := by
    refine comparedExactly_of_ne hsound ?_ ?_ ?_ ?_ <;> rw [hcounts] <;> decide +kernel
  obtain ⟨-, hreads⟩ := hdecides hcompared (by decide +kernel)
  obtain ⟨hdiverse, hshort, -⟩ := hreads hprogress
  rw [hcounts] at hdiverse hshort
  exact ⟨⟨hvalues, hapart, hfull, hsome, hcompared, hprogress⟩, hcounts, hdiverse, hshort⟩

end Repetition

end Vigil
