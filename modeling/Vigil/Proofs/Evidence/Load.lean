import Mathlib.Algebra.Order.BigOperators.Group.List
import Vigil.Proofs.Decimal.Rounding
import Vigil.Proofs.Evidence.Detectors
import Vigil.Proofs.Settings.Limits

/-!
# Means of loads

A load is judged by the mean of the readings in its window, so a few readings can make up for many by how high
they are. `CpuLoad.sustained_made_up`: a load is only sustained if what its high readings exceed the limit by
is as much as what the others fall short of it by, up to the rounding of the sum and the quotient.
-/

namespace Vigil.CpuLoad

open Decimal (value? Value rational rational_le rational_inj ulp ulp_pos AtMost add_atMost add_infinite div_atMost)

variable {x y : Float} {a b c t : ℚ} {v : Value} {xs : List Float} {qs : List ℚ} {s : Settings}
  {cpu : Ring Float}

-- ---------------------------------------------------------------------------
-- Excess and shortfall
-- ---------------------------------------------------------------------------

def excess (t : ℚ) (qs : List ℚ) : ℚ := (qs.map fun q => max (q - t) 0).sum

def shortfall (t : ℚ) (qs : List ℚ) : ℚ := (qs.map fun q => max (t - q) 0).sum

/-- How far a mean of so many readings may be off, as a part of it. -/
def drift (n : Nat) : ℚ := (1 + ulp) ^ (n + 2) - 1

theorem excess_sub_shortfall (t : ℚ) (qs : List ℚ) :
    excess t qs - shortfall t qs = qs.sum - qs.length * t := by
  induction qs with
  | nil => simp [excess, shortfall]
  | cons q qs ih =>
    have hcons : excess t (q :: qs) - shortfall t (q :: qs) =
        (max (q - t) 0 - max (t - q) 0) + (excess t qs - shortfall t qs) := by
      simp only [excess, shortfall, List.map_cons, List.sum_cons]
      ring
    have hone : max (q - t) 0 - max (t - q) 0 = q - t := by
      rcases le_total t q with h | h
      · rw [max_eq_left (sub_nonneg.mpr h), max_eq_right (sub_nonpos.mpr h), sub_zero]
      · rw [max_eq_right (sub_nonpos.mpr h), max_eq_left (sub_nonneg.mpr h)]
        ring
    rw [hcons, hone, ih]
    push_cast [List.sum_cons, List.length_cons]
    ring

-- ---------------------------------------------------------------------------
-- Sums
-- ---------------------------------------------------------------------------

def Numbers (xs : List Float) (qs : List ℚ) : Prop :=
  List.Forall₂ (fun x q => value? x = some (rational q) ∧ 0 ≤ q) xs qs

theorem Numbers.sum_nonneg (h : Numbers xs qs) : 0 ≤ qs.sum := by
  induction h with
  | nil => exact le_rfl
  | cons hq _ ih =>
    rw [List.sum_cons]
    exact add_nonneg hq.2 ih

theorem Numbers.foldl_add (h : Numbers xs qs) (hx : value? x = some v) (hv : AtMost c v) (hc : 0 ≤ c) :
    ∃ w, value? (xs.foldl (· + ·) x) = some w ∧ AtMost ((c + qs.sum) * (1 + ulp) ^ xs.length) w := by
  have hulp := ulp_pos
  induction h generalizing x v c with
  | nil => exact ⟨v, hx, by simpa using hv⟩
  | @cons y q ys qs hq hrest ih =>
    obtain ⟨hy, hnonneg⟩ := hq
    have hgrown : (c + q + qs.sum) * (1 + ulp) ^ (ys.length + 1) ≥
        ((c + q) * (1 + ulp) + qs.sum) * (1 + ulp) ^ ys.length := by
      rw [pow_succ', ← mul_assoc, ge_iff_le]
      refine mul_le_mul_of_nonneg_right ?_ (by positivity)
      have hgrows : 0 ≤ qs.sum * ulp := mul_nonneg (Numbers.sum_nonneg hrest) hulp.le
      linarith
    -- one more reading is added, to a sum that is a number or has outgrown all doubles
    obtain ⟨w, hw, hsum⟩ : ∃ w, value? (x + y) = some w ∧ AtMost ((c + q) * (1 + ulp)) w := by
      cases hv with
      | @finite r hr hle =>
        obtain ⟨w, hmost, hw⟩ := add_atMost hx hr hy hnonneg
        exact ⟨w, hw, hmost.mono (by gcongr)⟩
      | infinite hle =>
        refine ⟨⊤, add_infinite hx hy hnonneg, .infinite (hle.trans ?_)⟩
        nlinarith
    obtain ⟨z, hz, hmost⟩ := ih hw hsum (by positivity)
    refine ⟨z, hz, hmost.mono ?_⟩
    rwa [List.sum_cons, List.length_cons, ← add_assoc]

theorem Numbers.total (h : Numbers xs qs) :
    ∃ v, value? (CpuLoad.total xs) = some v ∧ AtMost (qs.sum * (1 + ulp) ^ xs.length) v := by
  have hstart : value? (-0.0) = some (rational 0) := by
    have hparts : Decimal.Parts.of (-0.0) = .finite true 0 Decimal.leastExponent := by decide +kernel
    rw [value?, hparts, Decimal.Parts.value?, Decimal.dyadic_zero, neg_zero]
  have hsum := h.foldl_add hstart (.finite le_rfl le_rfl) le_rfl
  rwa [zero_add] at hsum

-- ---------------------------------------------------------------------------
-- Means
-- ---------------------------------------------------------------------------

theorem Numbers.le_of_le_meanOf (h : Numbers xs qs) (hpos : 0 < xs.length) (hlog : xs.length.log2 < 64)
    (hone : 1 ≤ t) (ht : t ≤ 100) (hmean : ∃ v ∈ value? (meanOf xs), rational t ≤ v) :
    xs.length * t ≤ qs.sum * (1 + ulp) ^ (xs.length + 2) := by
  have hulp := ulp_pos
  have hlarge : (2 : ℚ) ^ 71 ≤ Count.ceiling := by exact_mod_cast Count.pow_le_ceiling (k := 71) (by decide)
  obtain ⟨v, htotal, hmost⟩ := h.total
  rw [pow_add, ← mul_assoc]
  cases hmost with
  | infinite hle =>
    have hfew : (xs.length : ℚ) ≤ 2 ^ 64 := by
      exact_mod_cast ((Nat.log2_lt (Nat.ne_of_gt hpos)).mp hlog).le
    calc xs.length * t ≤ 2 ^ 64 * 100 := mul_le_mul hfew ht (by linarith) (by positivity)
      _ ≤ 2 ^ 71 := by norm_num
      _ ≤ qs.sum * (1 + ulp) ^ xs.length := hlarge.trans hle
      _ ≤ qs.sum * (1 + ulp) ^ xs.length * (1 + ulp) ^ 2 :=
        le_mul_of_one_le_right (mul_nonneg h.sum_nonneg (by positivity)) (one_le_pow₀ (by linarith))
  | @finite r hr hle =>
    obtain ⟨hvalue, hcount, hnear⟩ := Count.value_near hpos (hlog.trans (by decide))
    have hlength : value? (.ofNat xs.length) = some (rational (Count.nearest xs.length)) := by
      rw [Count.value?_ofNat, hvalue]
    obtain ⟨w, hquotient, hw⟩ := div_atMost htotal hr hlength hcount
    obtain ⟨w', hw', hreached⟩ := hmean
    obtain rfl : w = w' := Option.some.inj (hw.symm.trans hw')
    have hmean : t ≤ r / Count.nearest xs.length * (1 + ulp) := by
      rcases hquotient with hmost | hsmall
      · exact hmost.le (by linarith) hreached
      · exact absurd (rational_le.mpr hone) (not_le.mpr (hreached.trans_lt hsmall))
    have hscaled : Count.nearest xs.length * t ≤ r * (1 + ulp) := by
      rw [div_mul_eq_mul_div, le_div_iff₀ hcount] at hmean
      linarith
    calc xs.length * t ≤ Count.nearest xs.length * (1 + ulp) * t := by gcongr
      _ = Count.nearest xs.length * t * (1 + ulp) := by ring
      _ ≤ r * (1 + ulp) * (1 + ulp) := by gcongr
      _ = r * (1 + ulp) ^ 2 := by ring
      _ ≤ qs.sum * (1 + ulp) ^ xs.length * (1 + ulp) ^ 2 := by gcongr

-- ---------------------------------------------------------------------------
-- Verdicts
-- ---------------------------------------------------------------------------

theorem recent_sublist (cpu : Ring Float) (window : Nat) : (cpu.recent window).Sublist cpu.entries := by
  unfold Ring.recent
  split
  · exact List.nil_sublist _
  · exact List.filter_sublist

theorem exists_rational (h : rational a ≤ v) (hv : v ≠ ⊤) : ∃ q, v = rational q := by
  induction v using WithBot.recBotCoe with
  | bot => exact absurd h (not_le.mpr (Decimal.bot_lt_rational a))
  | coe w =>
    induction w using WithTop.recTopCoe with
    | top => exact absurd rfl hv
    | coe q => exact ⟨q, rfl⟩

theorem numbers_of_nonneg (hxs : ∀ x ∈ xs, 0 ≤ x) (hfinite : ∀ x ∈ xs, value? x ≠ some ⊤) :
    ∃ qs, Numbers xs qs := by
  induction xs with
  | nil => exact ⟨[], .nil⟩
  | cons x xs ih =>
    obtain ⟨qs, hqs⟩ := ih (fun y hy => hxs y (List.mem_cons_of_mem x hy))
      (fun y hy => hfinite y (List.mem_cons_of_mem x hy))
    obtain ⟨z, hz, v, hv, hle⟩ := Decimal.le_iff.mp (hxs x List.mem_cons_self)
    have hzero : z = rational 0 := by
      have hvalue : value? 0 = some (rational 0) :=
        (Count.value?_small (by decide)).trans (by rw [Nat.cast_zero])
      exact Option.some.inj (hz.symm.trans hvalue)
    subst hzero
    obtain ⟨q, rfl⟩ := exists_rational hle fun h => hfinite x List.mem_cons_self (h ▸ hv)
    exact ⟨q :: qs, .cons ⟨hv, rational_le.mp hle⟩ hqs⟩

/-- A load is only sustained if the readings that reach the limit exceed it by as much as the others fall short
of it, up to the rounding of the mean: how few they are does not matter. An infinite reading makes up for
everything. -/
theorem sustained_made_up (hs : s.Accepted) (hcapacity : s.sampling.historyCapacity < 2 ^ 64)
    (hcpu : cpu.Holds s.sampling.historyCapacity) (hloads : ∀ x ∈ cpu.values, 0 ≤ x)
    (hsustained : (evaluate s.cpu cpu).verdict = .sustained) :
    covers cpu s.cpu.window ∧
      ((∃ e ∈ cpu.recent s.cpu.window, value? e.value = some ⊤) ∨
        ∃ t qs, value? s.cpu.sustainedPercent = some (rational t) ∧
          Numbers ((cpu.recent s.cpu.window).map (·.value)) qs ∧
          shortfall t qs ≤ excess t qs + drift qs.length * qs.sum) := by
  obtain ⟨hsome, hmean, hcovers⟩ := verdict_sustained_iff.mp hsustained
  refine ⟨hcovers, or_iff_not_imp_left.mpr fun hfinite => ?_⟩
  obtain ⟨xs, hxs⟩ : ∃ xs, (cpu.recent s.cpu.window).map (·.value) = xs := ⟨_, rfl⟩
  rw [hxs] at hsome hmean ⊢
  obtain ⟨qs, hqs⟩ : ∃ qs, Numbers xs qs := by
    refine numbers_of_nonneg (fun x hx => ?_) fun x hx htop => ?_
    · rw [← hxs] at hx
      exact hloads x (((recent_sublist cpu s.cpu.window).map _).subset hx)
    · rw [← hxs] at hx
      obtain ⟨e, he, rfl⟩ := List.mem_map.mp hx
      exact hfinite ⟨e, he, htop⟩
  obtain ⟨w, hw, v, hv, hreached⟩ := Decimal.le_iff.mp hmean
  obtain ⟨w', hw', hone, hhundred⟩ := hs.sustainedPercent_between fun hnan => by
    rw [Decimal.isNaN_iff.mp hnan] at hw
    cases hw
  obtain rfl : w = w' := Option.some.inj (hw.symm.trans hw')
  obtain ⟨t, rfl⟩ := exists_rational hone (ne_top_of_le_ne_top (Decimal.rational_lt_top _).ne hhundred)
  have hpos : 0 < xs.length := List.length_pos_of_ne_nil hsome
  -- a history is short enough for its length to be hardly rounded
  have hlog : xs.length.log2 < 64 := by
    have hsize : xs.length ≤ max s.sampling.historyCapacity 1 := by
      rw [← hxs, List.length_map]
      exact (recent_sublist cpu s.cpu.window).length_le.trans hcpu.size_le
    exact (Nat.log2_lt (Nat.ne_of_gt hpos)).mpr (hsize.trans_lt (max_lt hcapacity (by decide)))
  have hsum := hqs.le_of_le_meanOf hpos hlog (by exact_mod_cast rational_le.mp hone)
    (by exact_mod_cast rational_le.mp hhundred) ⟨v, hv, hreached⟩
  refine ⟨t, qs, hw, hqs, ?_⟩
  have hlength : xs.length = qs.length := hqs.length_eq
  rw [hlength] at hsum
  have hbalance := excess_sub_shortfall t qs
  rw [drift]
  linarith

-- ---------------------------------------------------------------------------
-- Bursts
-- ---------------------------------------------------------------------------

def everySecond (s : Settings) (xs : List Float) : Ring Float :=
  xs.zipIdx.foldl (fun r p => r.push (1000 * p.2) p.1) (.empty s.sampling.historyCapacity none)

theorem holds_everySecond (s : Settings) (xs : List Float) :
    (everySecond s xs).Holds s.sampling.historyCapacity := by
  unfold everySecond
  generalize xs.zipIdx = ps
  have hkeeps : ∀ r : Ring Float, r.Holds s.sampling.historyCapacity →
      (ps.foldl (fun r p => r.push (1000 * p.2) p.1) r).Holds s.sampling.historyCapacity := by
    induction ps with
    | nil => exact fun r hr => hr
    | cons p ps ih => exact fun r hr => ih _ (hr.push _ _)
  exact hkeeps _ (Ring.holds_empty _ _)

def burst : List Float := List.replicate 3 400 ++ List.replicate 8 0.5

theorem burst_made_up :
    (({} : Settings).Accepted ∧ ({} : Settings).sampling.historyCapacity < 2 ^ 64 ∧
      (everySecond {} burst).Holds ({} : Settings).sampling.historyCapacity ∧
      (∀ x ∈ (everySecond {} burst).values, 0 ≤ x) ∧
      (evaluate ({} : Settings).cpu (everySecond {} burst)).verdict = .sustained) ∧
    covers (everySecond {} burst) ({} : Settings).cpu.window ∧
      ((∃ e ∈ (everySecond {} burst).recent ({} : Settings).cpu.window, value? e.value = some ⊤) ∨
        ∃ t qs, value? ({} : Settings).cpu.sustainedPercent = some (rational t) ∧
          Numbers (((everySecond {} burst).recent ({} : Settings).cpu.window).map (·.value)) qs ∧
          shortfall t qs ≤ excess t qs + drift qs.length * qs.sum) := by
  have haccepted : ({} : Settings).Accepted := by decide +kernel
  have hcapacity : ({} : Settings).sampling.historyCapacity < 2 ^ 64 := by decide
  have hloads : ∀ x ∈ (everySecond {} burst).values, 0 ≤ x := by decide +kernel
  have hsustained : (evaluate ({} : Settings).cpu (everySecond {} burst)).verdict = .sustained := by
    decide +kernel
  have hholds := holds_everySecond {} burst
  exact ⟨⟨haccepted, hcapacity, hholds, hloads, hsustained⟩,
    sustained_made_up haccepted hcapacity hholds hloads hsustained⟩

def slope : List Float := List.replicate 4 100 ++ List.replicate 7 89

/-- How few readings reach the limit does not keep a load from being sustained, even if none exceeds one core. -/
theorem sustained_by_few : ¬ ∀ (s : Settings) (cpu : Ring Float), s.Accepted →
    cpu.Holds s.sampling.historyCapacity → (∀ x ∈ cpu.values, 0 ≤ x) →
    2 * ((cpu.recent s.cpu.window).filter fun e => s.cpu.sustainedPercent ≤ e.value).length <
      (cpu.recent s.cpu.window).length →
    (evaluate s.cpu cpu).verdict ≠ .sustained := by
  intro h
  exact h {} (everySecond {} slope) (by decide +kernel) (holds_everySecond _ _) (by decide +kernel)
    (by decide +kernel) (by decide +kernel)

end Vigil.CpuLoad
