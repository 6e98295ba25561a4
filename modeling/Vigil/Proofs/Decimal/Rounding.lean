import Vigil.Proofs.Decimal.Nearest

/-!
# Sums and quotients of doubles

Between two neighbouring multiples of a power of two, in one `Cell` of their grid, there is no double. A sum or a
quotient of doubles that are not negative is an end of the cell that its exact value lies in, `Rounds`, so it
never passes a double (`Rounds.le_of_le`, `Rounds.le_of_ge`, `le_div_iff`) and adds one part in `2 ^ 52` at most
(`add_atMost`, `div_atMost`).
-/

namespace Vigil.Decimal

open Float.Model Float.Model.UnpackedFloat Vigil.Count

variable {j k m n M : Nat} {e f : Int} {q t : ℚ} {v : Value} {x y : Float}

-- ---------------------------------------------------------------------------
-- Cells
-- ---------------------------------------------------------------------------

/-- `q` lies between the `j`-th multiple of `2 ^ e` and the next one, two neighbours on the grid of doubles. -/
structure Cell (q : ℚ) (j : Nat) (e : Int) : Prop where
  canonical : Canonical j e
  above : dyadic j e ≤ q
  below : q < dyadic (j + 1) e

/-- An end of the cell of `q`, or what lies beyond all doubles. A lower end that is `q` itself is not left. -/
def Rounds (q : ℚ) (v : Value) : Prop :=
  ∃ j e k, Cell q j e ∧ (k = j ∨ k = j + 1 ∧ q ≠ dyadic j e) ∧
    v = if dyadic k e < ceiling then rational (dyadic k e) else ⊤

structure IsDouble (t : ℚ) : Prop where
  parts : ∃ m e, Canonical m e ∧ t = dyadic m e
  small : t < ceiling

theorem dyadic_mono (h : m ≤ n) (e : Int) : dyadic m e ≤ dyadic n e :=
  mul_le_mul_of_nonneg_right (Nat.cast_le.mpr h) (zpow_pos two_pos e).le

theorem dyadic_le_iff : dyadic m e ≤ dyadic n e ↔ m ≤ n := by
  rw [← not_lt, dyadic_lt_iff, not_lt]

theorem dyadic_lower (m k : Nat) (e : Int) : dyadic m (e + k) = dyadic (m <<< k) e := by
  have h := dyadic_shift m k (e + k)
  rw [add_sub_cancel_right] at h
  exact h.symm

theorem Cell.next_le (hc : Cell q j e) (hm : Canonical m f) (h : dyadic j e < dyadic m f) :
    dyadic (j + 1) e ≤ dyadic m f := by
  rcases le_or_gt e f with hle | hlt
  · obtain ⟨k, rfl⟩ := Int.le.dest hle
    rw [dyadic_lower] at h ⊢
    exact dyadic_mono (dyadic_lt_iff.mp h) e
  · exact absurd (hm.dyadic_lt hc.canonical hlt) (not_lt.mpr h.le)

theorem Rounds.of_cell (hc : Cell q j e) (hk : k = j ∨ k = j + 1 ∧ q ≠ dyadic j e) :
    Rounds q (if dyadic k e < ceiling then rational (dyadic k e) else ⊤) := ⟨j, e, k, hc, hk, rfl⟩

theorem Rounds.le_of_le (h : Rounds q v) (ht : IsDouble t) (htq : t ≤ q) : rational t ≤ v := by
  obtain ⟨j, e, k, hc, hk, rfl⟩ := h
  obtain ⟨m, f, hm, rfl⟩ := ht.parts
  have hle : dyadic m f ≤ dyadic j e := by
    refine le_of_not_gt fun hlt => ?_
    exact absurd (htq.trans_lt hc.below) (not_lt.mpr (hc.next_le hm hlt))
  have hjk : j ≤ k := by
    rcases hk with rfl | ⟨rfl, -⟩ <;> omega
  split
  · exact rational_le.mpr (hle.trans (dyadic_mono hjk e))
  · exact le_top

theorem Rounds.le_of_ge (h : Rounds q v) (ht : IsDouble t) (hqt : q ≤ t) : v ≤ rational t := by
  obtain ⟨j, e, k, hc, hk, rfl⟩ := h
  obtain ⟨m, f, hm, rfl⟩ := ht.parts
  have hle : dyadic k e ≤ dyadic m f := by
    rcases hk with rfl | ⟨rfl, hne⟩
    · exact hc.above.trans hqt
    · exact hc.next_le hm ((lt_of_le_of_ne hc.above hne.symm).trans_le hqt)
  rw [if_pos (hle.trans_lt ht.small)]
  exact rational_le.mpr hle

def ulp : ℚ := 1 / 2 ^ 52

theorem ulp_pos : 0 < ulp := by norm_num [ulp]

theorem Cell.next_le_mul (hc : Cell q j e) (he : leastExponent < e) :
    dyadic (j + 1) e ≤ dyadic j e * (1 + ulp) := by
  have hj : (2 : ℚ) ^ 52 ≤ j := by exact_mod_cast hc.canonical.full he
  have hone : (1 : ℚ) ≤ j * ulp := by
    rw [ulp, mul_one_div, le_div_iff₀ (by norm_num)]
    linarith
  have hpow := zpow_pos (two_pos (α := ℚ)) e
  calc dyadic (j + 1) e = (j + 1) * 2 ^ e := by rw [dyadic]; push_cast; ring
    _ ≤ (j + j * ulp) * 2 ^ e := by gcongr
    _ = dyadic j e * (1 + ulp) := by rw [dyadic]; ring

-- ---------------------------------------------------------------------------
-- Packing
-- ---------------------------------------------------------------------------

theorem Canonical.log2_le (h : Canonical m e) : m.log2 ≤ 52 := Count.log2_le h.fits

theorem log2_hidden (hm : hiddenBit ≤ m) (hfits : m < 2 * hiddenBit) : m.log2 = 52 := by
  have hpos : m ≠ 0 := by
    rintro rfl
    exact absurd hm (by decide)
  exact (Nat.log2_eq_iff hpos).mpr ⟨hm, hfits⟩

theorem Canonical.target (h : Canonical m e) :
    Format.binary64.targetExponent (totalExponent m e) = e := by
  have hleast : -1074 ≤ e := h.least
  have hlog := h.log2_le
  show max ((m.log2 : Int) + 1 + e - 53) (-1074) = e
  rcases eq_or_lt_of_le hleast with rfl | hlt
  · omega
  · have hfull := log2_hidden (h.full hlt) h.fits
    omega

theorem unpack_pack_small (s : Sign) (hm : 0 < m) (hlt : m < hiddenBit) :
    (Float.Model.pack (.finite s m leastExponent hm)).unpack = .finite s m leastExponent hm := by
  have hlog : ¬ m.log2 + 1 = Format.binary64.mantissaBits := by
    have hfits : m.log2 < 52 := (Nat.log2_lt (Nat.ne_of_gt hm)).mpr hlt
    show ¬ m.log2 + 1 = 53
    omega
  have hroom : ¬ 2 ^ Format.binary64.exponentBits ≤ (leastExponent + Format.binary64.exponentBias +
      Format.binary64.mantissaBitsWithoutImplicit).toNat + 1 := by decide
  obtain ⟨w, hw⟩ : ∃ w, w = packComponents Format.binary64 s 0#_ (BitVec.ofNat 52 m) := ⟨_, rfl⟩
  have hpack : UnpackedFloat.pack Format.binary64 (.finite s m leastExponent hm) = w := by
    rw [hw]
    exact (if_neg (t := packedInfinity Format.binary64 s) hroom).trans (if_neg hlog)
  have hsign : Sign.ofBitVec (unpackSign w) = s := hw ▸ sign_packComponents s _ _
  have hexponent : unpackExponent w = 0#_ := hw ▸ unpackExponent_packComponents
  have hmantissa : (unpackMantissa w).toNat = m := by
    have hfield : unpackMantissa w = BitVec.ofNat 52 m := hw ▸ unpackMantissa_packComponents
    rw [hfield, BitVec.toNat_ofNat]
    exact Nat.mod_eq_of_lt hlt
  have hsome : unpackMantissa w ≠ 0#_ := by
    intro h
    rw [h] at hmantissa
    exact absurd hmantissa (Nat.ne_of_lt hm)
  have hmax : unpackExponent w ≠ -1#_ := by
    rw [hexponent]
    decide
  rw [unpack_pack_eq, hpack]
  refine ((if_neg hmax).trans ((if_pos hexponent).trans (dif_neg hsome))).trans ?_
  exact finite_congr hsign hmantissa (by rw [hexponent]; rfl)

theorem value?_zero {s : Sign} (h : x.toModel.unpack = .zero s) : value? x = some (rational 0) := by
  have hreads := reads x
  rw [h] at hreads
  cases hparts : Parts.of x with
  | nan => rw [hparts] at hreads; cases hreads
  | infinite b => rw [hparts] at hreads; cases hreads
  | finite b m e =>
    rw [hparts] at hreads
    cases hreads
    cases s <;> simp [value?, hparts, Parts.value?, isNegative, dyadic_zero]

theorem dyadic_small (hm : m < hiddenBit) : dyadic m leastExponent < ceiling := by
  have hpow : (2 : ℚ) ^ leastExponent ≤ 1 := zpow_le_one_of_nonpos₀ one_le_two (by decide)
  calc dyadic m leastExponent ≤ m * 1 := mul_le_mul_of_nonneg_left hpow (Nat.cast_nonneg m)
    _ = m := by ring
    _ < ceiling := Nat.cast_lt.mpr (hm.trans_le (pow_le_ceiling (k := 52) (by decide)))

theorem dyadic_lt_ceiling_iff (h : m.log2 = 52) : dyadic m e < ceiling ↔ e ≤ 971 := by
  obtain ⟨hlow, hhigh⟩ := (Nat.log2_eq_iff (Nat.ne_of_gt (pos_of_log2 h))).mp h
  have hpow := zpow_pos (two_pos (α := ℚ)) e
  have hlow' : (2 : ℚ) ^ (52 : Int) ≤ m := by exact_mod_cast hlow
  have hhigh' : (m : ℚ) < 2 ^ (53 : Int) := by exact_mod_cast hhigh
  have hceiling : ((ceiling : Nat) : ℚ) = 2 ^ (mostBits : Int) := by
    rw [ceiling, Nat.cast_pow, Nat.cast_ofNat, zpow_natCast]
  have hbits : (mostBits : Int) = 1024 := rfl
  rw [hceiling]
  constructor
  · intro hlt
    have hbelow : (2 : ℚ) ^ (52 + e) < 2 ^ (mostBits : Int) := by
      rw [zpow_add₀ two_ne_zero]
      exact (mul_le_mul_of_nonneg_right hlow' hpow.le).trans_lt hlt
    have := (zpow_lt_zpow_iff_right₀ one_lt_two).mp hbelow
    omega
  · intro hle
    calc dyadic m e < 2 ^ (53 : Int) * 2 ^ e := mul_lt_mul_of_pos_right hhigh' hpow
      _ = 2 ^ (53 + e) := (zpow_add₀ two_ne_zero _ _).symm
      _ ≤ 2 ^ (mostBits : Int) := zpow_le_zpow_right₀ one_le_two (by omega)

theorem value?_pack (h : Canonical m e) (hm : 0 < m) :
    value? (Float.ofModel (Float.Model.pack (.finite .positive m e hm))) =
      some (if dyadic m e < ceiling then rational (dyadic m e) else ⊤) := by
  rcases Nat.lt_or_ge m hiddenBit with hsmall | hfull
  · have he : e = leastExponent := by
      refine le_antisymm (not_lt.mp fun hlt => ?_) h.least
      exact absurd (h.full hlt) (Nat.not_le.mpr hsmall)
    subst he
    rw [if_pos (dyadic_small hsmall)]
    exact value?_finite (unpack_pack_small .positive hm hsmall)
  have hlog := log2_hidden hfull h.fits
  by_cases he : e ≤ 971
  · rw [if_pos ((dyadic_lt_ceiling_iff hlog).mpr he)]
    exact value?_finite (unpack_pack .positive hlog h.least he)
  · rw [if_neg (mt (dyadic_lt_ceiling_iff hlog).mp he)]
    exact value?_infinite (unpack_pack_overflow .positive hm (by omega))

-- ---------------------------------------------------------------------------
-- Rounding
-- ---------------------------------------------------------------------------

/-- What is known of a number whose multiple of `2 ^ e` below it was kept and the rest was not. -/
inductive Describes (M : Nat) (e : Int) : Accuracy → ℚ → Prop
  | exact : Describes M e .exact (dyadic M e)
  | inexact {o : Ordering} {q : ℚ} (above : dyadic M e < q) (below : q < dyadic (M + 1) e) :
      Describes M e (.inexact o) q

variable {a : Accuracy}

theorem Describes.le (h : Describes M e a q) : dyadic M e ≤ q := by
  cases h with
  | exact => exact le_rfl
  | inexact above => exact above.le

theorem Describes.lt (h : Describes M e a q) : q < dyadic (M + 1) e := by
  cases h with
  | exact => exact dyadic_lt_iff.mpr (Nat.lt_succ_self M)
  | inexact _ below => exact below

theorem ofMantissa_mantissa (M : Nat) (a : Accuracy) :
    (ExtendedMantissa.ofMantissaAndAccuracy M a).mantissa = M := by
  cases a with
  | exact => rfl
  | inexact o => cases o <;> rfl

theorem canonical_div {k : Nat} (ht : Format.binary64.targetExponent (totalExponent M e) = e + k) :
    Canonical (M / 2 ^ k) (e + k) := by
  have htarget : max ((M.log2 : Int) + 1 + e - 53) (-1074) = e + k := ht
  have hfits : M < 2 ^ 53 * 2 ^ k := by
    calc M < 2 ^ (M.log2 + 1) := Nat.lt_log2_self
      _ ≤ 2 ^ (53 + k) := Nat.pow_le_pow_right Nat.two_pos (by omega)
      _ = 2 ^ 53 * 2 ^ k := Nat.pow_add 2 53 k
  refine ⟨?_, by show (-1074 : Int) ≤ e + k; omega, fun hlt => ?_⟩
  · exact (Nat.div_lt_iff_lt_mul (Nat.two_pow_pos k)).mpr hfits
  · have hmore : (-1074 : Int) < e + k := hlt
    have hne : M ≠ 0 := by
      rintro rfl
      rw [Nat.log2_zero] at htarget
      omega
    refine (Nat.le_div_iff_mul_le (Nat.two_pow_pos k)).mpr ?_
    calc hiddenBit * 2 ^ k = 2 ^ (52 + k) := (Nat.pow_add 2 52 k).symm
      _ = 2 ^ M.log2 := by congr 1; omega
      _ ≤ M := Nat.log2_self_le hne

theorem Describes.cell {k : Nat} (h : Describes M e a q)
    (ht : Format.binary64.targetExponent (totalExponent M e) = e + k) : Cell q (M / 2 ^ k) (e + k) where
  canonical := canonical_div ht
  above := by
    rw [dyadic_lower, Nat.shiftLeft_eq]
    exact (dyadic_mono (Nat.div_mul_le_self M _) e).trans h.le
  below := by
    have hmore : M + 1 ≤ (M / 2 ^ k + 1) * 2 ^ k := Nat.lt_div_mul_add (Nat.two_pow_pos k) |>.trans_eq
      (Nat.succ_mul _ _).symm
    rw [dyadic_lower, Nat.shiftLeft_eq]
    exact h.lt.trans_le (dyadic_mono hmore e)

theorem Describes.rounded {k : Nat} (h : Describes M e a q) :
    (ExtendedMantissa.ofMantissaAndAccuracy M a >>> k).roundedMantissa = M / 2 ^ k ∨
      (ExtendedMantissa.ofMantissaAndAccuracy M a >>> k).roundedMantissa = M / 2 ^ k + 1 ∧
        q ≠ dyadic (M / 2 ^ k) (e + k) := by
  have hmantissa : (ExtendedMantissa.ofMantissaAndAccuracy M a >>> k).mantissa = M / 2 ^ k := by
    rw [shift_mantissa, ofMantissa_mantissa, Nat.shiftRight_eq_div_pow]
  rcases rounded_cases (ExtendedMantissa.ofMantissaAndAccuracy M a >>> k) with heq | heq
  · exact .inl (heq.trans hmantissa)
  rw [hmantissa] at heq
  by_cases hq : q = dyadic (M / 2 ^ k) (e + k)
  · -- nothing is shifted out of an exact multiple
    refine .inl ?_
    rw [dyadic_lower, Nat.shiftLeft_eq] at hq
    have hle : M ≤ M / 2 ^ k * 2 ^ k := dyadic_le_iff.mp (h.le.trans hq.le)
    have hM : M = (M / 2 ^ k) <<< k := by
      rw [Nat.shiftLeft_eq]
      exact le_antisymm hle (Nat.div_mul_le_self M _)
    cases h with
    | exact =>
      obtain ⟨j, hj⟩ : ∃ j, M / 2 ^ k = j := ⟨_, rfl⟩
      rw [hj] at hM ⊢
      subst hM
      show ((⟨j <<< k, false, false⟩ : ExtendedMantissa) >>> k).roundedMantissa = j
      rw [shift_exact]
      rfl
    | inexact above =>
      rw [hq] at above
      exact absurd (dyadic_lt_iff.mp above) (Nat.not_lt.mpr (Nat.div_mul_le_self M _))
  · exact .inr ⟨heq, hq⟩

theorem shift_canonical (h : Canonical m e) :
    shiftToTargetExponent Format.binary64 m e .exact = (⟨m, false, false⟩, e) := by
  simp only [shiftToTargetExponent, h.target, shiftToExponent, Int.sub_self]
  exact Prod.ext rfl (Int.add_zero e)

theorem shift_carried (he : leastExponent ≤ e) :
    shiftToTargetExponent Format.binary64 (2 * hiddenBit) e .exact = (⟨hiddenBit, false, false⟩, e + 1) := by
  have hlog : (2 * hiddenBit).log2 = 53 := Nat.log2_two_pow (n := 53)
  have hleast : -1074 ≤ e := he
  have ht : Format.binary64.targetExponent (totalExponent (2 * hiddenBit) e) = e + 1 := by
    rw [totalExponent, hlog, targetExponent_eq (by omega)]
    omega
  have hamount : (e + 1 - e).toNat = 1 := by omega
  simp only [shiftToTargetExponent, ht, shiftToExponent, hamount]
  rfl

theorem Canonical.carried (he : leastExponent ≤ e) : Canonical hiddenBit (e + 1) where
  fits := by decide
  least := by omega
  full _ := le_refl _

theorem value?_shifted {em : ExtendedMantissa} {f : Int}
    (hfirst : shiftToTargetExponent Format.binary64 M e a = (em, f))
    (h : Canonical em.roundedMantissa f ∨ em.roundedMantissa = 2 * hiddenBit ∧ leastExponent ≤ f) :
    value? (Float.ofModel (Float.Model.pack (roundWithAccuracy Format.binary64 .positive M e a))) =
      some (if dyadic em.roundedMantissa f < ceiling then rational (dyadic em.roundedMantissa f) else ⊤) := by
  rcases h with hcanonical | ⟨hcarry, hleast⟩
  · rcases Nat.eq_zero_or_pos em.roundedMantissa with hzero | hpos
    · have hround : roundWithAccuracy Format.binary64 .positive M e a = .zero .positive := by
        unfold roundWithAccuracy
        rw [hfirst]
        dsimp only
        rw [shift_canonical hcanonical]
        exact dif_pos hzero
      have hlt : (0 : ℚ) < ceiling := by exact_mod_cast Nat.two_pow_pos mostBits
      rw [hround, hzero, dyadic_zero, if_pos hlt]
      exact value?_zero (s := .positive) rfl
    · rw [round_of_shifts hfirst (shift_canonical hcanonical) hpos]
      exact value?_pack hcanonical hpos
  · have hsecond := shift_carried hleast
    rw [← hcarry] at hsecond
    rw [round_of_shifts hfirst hsecond (by decide), hcarry]
    have hsame : dyadic (2 * hiddenBit) f = dyadic hiddenBit (f + 1) := (dyadic_lower hiddenBit 1 f).symm
    rw [hsame]
    exact value?_pack (.carried hleast) (by decide)

/-- A number of which enough bits are known is rounded to an end of its cell. -/
theorem Describes.rounds (h : Describes M e a q)
    (he : e ≤ Format.binary64.targetExponent (totalExponent M e)) :
    ∃ v, Rounds q v ∧
      value? (Float.ofModel (Float.Model.pack (roundWithAccuracy Format.binary64 .positive M e a))) = some v := by
  obtain ⟨k, hk⟩ := Int.le.dest he
  have hamount : (e + k - e).toNat = k := by omega
  have hfirst : shiftToTargetExponent Format.binary64 M e a =
      (ExtendedMantissa.ofMantissaAndAccuracy M a >>> k, e + k) := by
    simp only [shiftToTargetExponent, ← hk, shiftToExponent, hamount]
  have hcell := h.cell hk.symm
  refine ⟨_, Rounds.of_cell hcell h.rounded, value?_shifted hfirst ?_⟩
  obtain ⟨hfits, hleast, hfull⟩ := hcell.canonical
  rcases h.rounded (k := k) with heq | ⟨heq, -⟩
  · exact .inl (heq ▸ hcell.canonical)
  · rcases Nat.lt_or_eq_of_le (Nat.succ_le_of_lt hfits) with hlt | hover
    · refine .inl (heq ▸ ⟨hlt, hleast, fun hmore => ?_⟩)
      exact (hfull hmore).trans (Nat.le_succ _)
    · exact .inr ⟨heq.trans hover, hleast⟩

-- ---------------------------------------------------------------------------
-- Sums
-- ---------------------------------------------------------------------------

variable {b c : ℚ} {u w : UnpackedFloat}

/-- Values that do not pass `c`, where what all doubles lie below counts as infinite. -/
inductive AtMost (c : ℚ) : Value → Prop
  | finite {r : ℚ} (nonneg : 0 ≤ r) (le : r ≤ c) : AtMost c (rational r)
  | infinite (le : ceiling ≤ c) : AtMost c ⊤

theorem AtMost.of_le {r : ℚ} (hr : 0 ≤ r) (hle : r ≤ c) :
    AtMost c (if r < ceiling then rational r else ⊤) := by
  split
  · exact .finite hr hle
  · exact .infinite ((not_lt.mp ‹_›).trans hle)

theorem AtMost.mono {d : ℚ} (h : AtMost c v) (hcd : c ≤ d) : AtMost d v := by
  cases h with
  | finite hr hle => exact .finite hr (hle.trans hcd)
  | infinite hle => exact .infinite (hle.trans hcd)

theorem AtMost.le (h : AtMost c v) (ht : t ≤ ceiling) (hle : rational t ≤ v) : t ≤ c := by
  cases h with
  | finite _ hr => exact (rational_le.mp hle).trans hr
  | infinite hr => exact ht.trans hr

theorem dyadic_nonneg (m : Nat) (e : Int) : 0 ≤ dyadic m e :=
  mul_nonneg (Nat.cast_nonneg m) (zpow_pos two_pos e).le

theorem Cell.atMost (hc : Cell q j e) (he : leastExponent < e) (hk : k ≤ j + 1) :
    AtMost (q * (1 + ulp)) (if dyadic k e < ceiling then rational (dyadic k e) else ⊤) := by
  refine .of_le (dyadic_nonneg k e) ?_
  calc dyadic k e ≤ dyadic (j + 1) e := dyadic_mono hk e
    _ ≤ dyadic j e * (1 + ulp) := hc.next_le_mul he
    _ ≤ q * (1 + ulp) := mul_le_mul_of_nonneg_right hc.above (by linarith [ulp_pos])

/-- What is a multiple of all doubles' least unit is not rounded at the least exponent. -/
theorem Rounds.atMost (h : Rounds (dyadic n f) v) (hf : leastExponent ≤ f) :
    AtMost (dyadic n f * (1 + ulp)) v := by
  obtain ⟨j, e, k, hc, hk, rfl⟩ := h
  rcases eq_or_lt_of_le hc.canonical.least with rfl | hlt
  · -- the number is itself on the grid, so it is the lower end of its cell
    obtain ⟨i, rfl⟩ := Int.le.dest hf
    have habove := hc.above
    have hbelow := hc.below
    rw [dyadic_lower] at habove hbelow hk ⊢
    have hj : n <<< i = j := le_antisymm (Nat.lt_succ_iff.mp (dyadic_lt_iff.mp hbelow)) (dyadic_le_iff.mp habove)
    have hkj : k = j := hk.resolve_right fun h => h.2 (hj ▸ rfl)
    subst hkj hj
    refine .of_le (dyadic_nonneg _ _) (le_mul_of_one_le_right (dyadic_nonneg _ _) ?_)
    linarith [ulp_pos]
  · refine hc.atMost hlt ?_
    rcases hk with rfl | ⟨rfl, -⟩ <;> omega

inductive IsValue : UnpackedFloat → ℚ → Prop
  | zero (s : Sign) : IsValue (.zero s) 0
  | finite {m : Nat} {e : Int} (hm : 0 < m) (h : Canonical m e) :
      IsValue (.finite .positive m e hm) (dyadic m e)

theorem isValue_of_value? (h : value? x = some (rational b)) (hb : 0 ≤ b) : IsValue x.toModel.unpack b := by
  have hreads := reads x
  rw [value?] at h
  generalize x.toModel.unpack = u at hreads ⊢
  generalize Parts.of x = p at hreads h
  cases hreads with
  | nan => cases h
  | infinite s => cases s <;> simp [Parts.value?, isNegative, rational] at h
  | zero s =>
    have hzero : b = 0 := by
      cases s <;> simpa [Parts.value?, isNegative, dyadic_zero, eq_comm] using h
    rw [hzero]
    exact .zero s
  | finite s hm hc =>
    cases s with
    | positive =>
      have hvalue := rational_inj.mp (Option.some.inj h)
      exact hvalue ▸ .finite hm hc
    | negative =>
      have hvalue := rational_inj.mp (Option.some.inj h)
      exact absurd hb (not_le.mpr (hvalue ▸ neg_lt_zero.mpr (dyadic_pos hm)))

theorem value?_pack_zero (s : Sign) :
    value? (Float.ofModel (Float.Model.pack (.zero s))) = some (rational 0) := by
  refine value?_zero (s := s) ?_
  cases s <;> rfl

theorem normalize_pos (hM : 0 < M) : ∃ k : Nat, e - k ≤ Format.binary64.targetExponent (totalExponent M e) ∧
    UnpackedFloat.normalize Format.binary64 (M : Int) e .positive =
      roundWithAccuracy Format.binary64 .positive (M <<< k) (e - k) .exact := by
  have hcompare : compare (M : Int) 0 = .gt := Int.compare_eq_gt.mpr (by omega)
  refine ⟨(e - Format.binary64.targetExponent (totalExponent M e)).toNat, by omega, ?_⟩
  simp only [UnpackedFloat.normalize, hcompare, Int.toNat_natCast, UnpackedFloat.round, decreaseExponent]

theorem normalize_rounds (hM : 0 < M) : ∃ v, Rounds (dyadic M e) v ∧
    value? (Float.ofModel (Float.Model.pack (UnpackedFloat.normalize Format.binary64 M e .positive))) = some v := by
  obtain ⟨k, hk, hnormalize⟩ := normalize_pos (e := e) hM
  have htotal : totalExponent (M <<< k) (e - k) = totalExponent M e := by
    rw [totalExponent, totalExponent, log2_shift (Nat.ne_of_gt hM)]
    omega
  rw [hnormalize, ← dyadic_shift M k e]
  exact Describes.exact.rounds (htotal ▸ hk)

theorem dyadic_add (m n : Nat) (e : Int) : dyadic (m + n) e = dyadic m e + dyadic n e := by
  rw [dyadic, Nat.cast_add, add_mul, dyadic, dyadic]

theorem dyadic_toNat {g : Int} (h : g ≤ e) (m : Nat) : dyadic (m <<< (e - g).toNat) g = dyadic m e := by
  obtain ⟨k, rfl⟩ := Int.le.dest h
  rw [add_sub_cancel_left, Int.toNat_natCast, dyadic_lower]

theorem add_finite (hm : 0 < m) (hn : 0 < n) :
    UnpackedFloat.add Format.binary64 (.finite .positive m e hm) (.finite .positive n f hn) =
      UnpackedFloat.normalize Format.binary64
        ((m <<< (e - min e f).toNat + n <<< (f - min e f).toNat : Nat) : Int) (min e f) .positive := rfl

theorem IsValue.add_atMost (hu : IsValue u b) (hw : IsValue w c) :
    ∃ v, AtMost ((b + c) * (1 + ulp)) v ∧
      value? (Float.ofModel (Float.Model.pack (UnpackedFloat.add Format.binary64 u w))) = some v := by
  have hgrows : ∀ t : ℚ, 0 ≤ t → t ≤ t * (1 + ulp) := fun t ht =>
    le_mul_of_one_le_right ht (by linarith [ulp_pos])
  cases hu with
  | zero s =>
    cases hw with
    | zero t =>
      refine ⟨rational 0, .finite le_rfl (by simp), ?_⟩
      cases s <;> cases t <;> exact value?_pack_zero _
    | finite hm hc =>
      refine ⟨_, .of_le (dyadic_nonneg _ _) ?_, value?_pack hc hm⟩
      rw [zero_add]
      exact hgrows _ (dyadic_nonneg _ _)
  | @finite m e hm hc =>
    cases hw with
    | zero t =>
      refine ⟨_, .of_le (dyadic_nonneg _ _) ?_, value?_pack hc hm⟩
      rw [add_zero]
      exact hgrows _ (dyadic_nonneg _ _)
    | @finite n f hn hd =>
      have hpos : 0 < m <<< (e - min e f).toNat + n <<< (f - min e f).toNat := by
        rw [Nat.shiftLeft_eq]
        exact Nat.add_pos_left (Nat.mul_pos hm (Nat.two_pow_pos _)) _
      obtain ⟨v, hrounds, hvalue⟩ := normalize_rounds (e := min e f) hpos
      have hsum : dyadic (m <<< (e - min e f).toNat + n <<< (f - min e f).toNat) (min e f) =
          dyadic m e + dyadic n f := by
        rw [dyadic_add, dyadic_toNat (min_le_left e f), dyadic_toNat (min_le_right e f)]
      rw [add_finite hm hn, ← hsum]
      exact ⟨v, hrounds.atMost (le_min hc.least hd.least), hvalue⟩

theorem add_atMost (hx : value? x = some (rational b)) (hb : 0 ≤ b) (hy : value? y = some (rational c))
    (hc : 0 ≤ c) : ∃ v, AtMost ((b + c) * (1 + ulp)) v ∧ value? (x + y) = some v :=
  (isValue_of_value? hx hb).add_atMost (isValue_of_value? hy hc)

theorem unpack_infinite (h : value? x = some ⊤) : x.toModel.unpack = .infinity .positive := by
  have hreads := reads x
  rw [value?] at h
  generalize x.toModel.unpack = u at hreads ⊢
  generalize Parts.of x = p at hreads h
  cases hreads with
  | nan => cases h
  | infinite s =>
    cases s with
    | positive => rfl
    | negative => cases h
  | zero s | finite s => cases s <;> simp [Parts.value?, isNegative, rational] at h

theorem add_infinite (hx : value? x = some ⊤) (hy : value? y = some (rational c)) (hc : 0 ≤ c) :
    value? (x + y) = some ⊤ := by
  have hsum : UnpackedFloat.add Format.binary64 x.toModel.unpack y.toModel.unpack = .infinity .positive := by
    have hw := isValue_of_value? hy hc
    rw [unpack_infinite hx]
    generalize y.toModel.unpack = w at hw ⊢
    cases hw <;> rfl
  refine value?_infinite ?_
  show (Float.Model.pack (UnpackedFloat.add Format.binary64 x.toModel.unpack y.toModel.unpack)).unpack = _
  rw [hsum]
  rfl

-- ---------------------------------------------------------------------------
-- Quotients
-- ---------------------------------------------------------------------------

theorem log2_div (hn : 0 < n) (hm : 0 < m) : m.log2 ≤ (m / n).log2 + n.log2 + 1 := by
  rcases Nat.lt_or_ge m.log2 (n.log2 + 1) with hlt | hge
  · omega
  obtain ⟨d, hd⟩ := Nat.exists_eq_add_of_le hge
  have hpow : 2 ^ d ≤ m / n := by
    refine (Nat.le_div_iff_mul_le hn).mpr ?_
    calc 2 ^ d * n ≤ 2 ^ d * 2 ^ (n.log2 + 1) := Nat.mul_le_mul_left _ Nat.lt_log2_self.le
      _ = 2 ^ m.log2 := by rw [← Nat.pow_add, hd, Nat.add_comm]
      _ ≤ m := Nat.log2_self_le (Nat.ne_of_gt hm)
  have hlog := (Nat.le_log2 (Nat.ne_of_gt ((Nat.two_pow_pos d).trans_le hpow))).mpr hpow
  omega

theorem describes_div (hn : 0 < n) (M : Nat) (e : Int) :
    Describes (M / n) e (accuracyOfFraction (M % n) n) (dyadic M e / n) := by
  have hpow := zpow_pos (two_pos (α := ℚ)) e
  have hn' : (0 : ℚ) < n := Nat.cast_pos.mpr hn
  have hrest := Nat.div_add_mod M n
  have hsplit : dyadic M e = dyadic (M / n) e * n + dyadic (M % n) e := by
    rw [dyadic, dyadic, dyadic]
    nth_rewrite 1 [← hrest]
    push_cast
    ring
  unfold accuracyOfFraction
  split
  · have hq : dyadic M e / n = dyadic (M / n) e := by
      rw [hsplit, ‹M % n = 0›, dyadic_zero, add_zero, mul_div_cancel_right₀ _ hn'.ne']
    rw [hq]
    exact .exact
  · have hmod : 0 < M % n := Nat.pos_of_ne_zero ‹_›
    refine .inexact ?_ ?_
    · rw [lt_div_iff₀ hn', hsplit]
      exact lt_add_of_pos_right _ (dyadic_pos hmod)
    · rw [div_lt_iff₀ hn', hsplit, dyadic_add, add_mul]
      refine add_lt_add_right ?_ _
      rw [dyadic, dyadic, Nat.cast_one, one_mul, mul_comm]
      exact mul_lt_mul_of_pos_left (Nat.cast_lt.mpr (Nat.mod_lt M hn)) hpow

theorem divCore_eq (m : Nat) (e : Int) (n : Nat) (f : Int) : ∃ (k : Nat) (g : Int), g = e - f - k ∧
    g ≤ Format.binary64.targetExponent (totalExponent m e - totalExponent n f) ∧
    divCore Format.binary64 m e n f =
      ((m <<< k) / n, g, accuracyOfFraction ((m <<< k) % n) n) := by
  obtain ⟨g, hg⟩ : ∃ g, g = min (e - f)
    (Format.binary64.targetExponent (totalExponent m e - totalExponent n f)) := ⟨_, rfl⟩
  refine ⟨(e - f - g).toNat, g, by omega, by omega, ?_⟩
  simp only [divCore, ← hg]

theorem targetExponent_mono {s t : Int} (h : s ≤ t) :
    Format.binary64.targetExponent s ≤ Format.binary64.targetExponent t := by
  show max (s - 53) (-1074) ≤ max (t - 53) (-1074)
  omega

theorem div_finite_rounds (hm : 0 < m) (hn : 0 < n) : ∃ v, Rounds (dyadic m e / dyadic n f) v ∧
    value? (Float.ofModel (Float.Model.pack (UnpackedFloat.div Format.binary64 (.finite .positive m e hm)
      (.finite .positive n f hn)))) = some v := by
  obtain ⟨k, g, hg, hle, hcore⟩ := divCore_eq m e n f
  have hdiv : UnpackedFloat.div Format.binary64 (.finite .positive m e hm) (.finite .positive n f hn) =
      roundWithAccuracy Format.binary64 .positive ((m <<< k) / n) g (accuracyOfFraction ((m <<< k) % n) n) := by
    show (match divCore Format.binary64 m e n f with
      | (M, g, a) => roundWithAccuracy Format.binary64 (Sign.positive / Sign.positive) M g a) = _
    rw [hcore]
    rfl
  have hquotient : dyadic (m <<< k) g / n = dyadic m e / dyadic n f := by
    have hlower : dyadic (m <<< k) g = m * 2 ^ (e - f) := by
      rw [hg, dyadic_shift, dyadic]
    have hpow := zpow_pos (two_pos (α := ℚ)) f
    rw [hlower, dyadic, dyadic, zpow_sub₀ two_ne_zero]
    field_simp
  have hpos : 0 < m <<< k := by
    rw [Nat.shiftLeft_eq]
    exact Nat.mul_pos hm (Nat.two_pow_pos k)
  have henough : totalExponent m e - totalExponent n f ≤ totalExponent ((m <<< k) / n) g := by
    have hlog := log2_div hn hpos
    rw [log2_shift (Nat.ne_of_gt hm)] at hlog
    rw [totalExponent, totalExponent, totalExponent]
    omega
  rw [hdiv, ← hquotient]
  exact (describes_div hn (m <<< k) g).rounds (hle.trans (targetExponent_mono henough))

/-- The quotient of two doubles is off by one part in `2 ^ 52` at most, if it is not small. -/
theorem Rounds.atMost_or_small (h : Rounds q v) : AtMost (q * (1 + ulp)) v ∨ v < rational 1 := by
  obtain ⟨j, e, k, hc, hk, rfl⟩ := h
  have hkj : k ≤ j + 1 := by
    rcases hk with rfl | ⟨rfl, -⟩ <;> omega
  rcases eq_or_lt_of_le hc.canonical.least with rfl | hlt
  · right
    have hsmall : dyadic k leastExponent < 1 := by
      have hfits : k ≤ 2 * hiddenBit := hkj.trans hc.canonical.fits
      calc dyadic k leastExponent ≤ dyadic (2 * hiddenBit) leastExponent := dyadic_mono hfits _
        _ < 1 := by decide +kernel
    have hceiling : dyadic k leastExponent < ceiling :=
      hsmall.trans_le (by exact_mod_cast Nat.one_le_two_pow (n := mostBits))
    rw [if_pos hceiling]
    exact rational_lt.mpr hsmall
  · exact .inl (hc.atMost hlt hkj)

theorem rounds_zero : Rounds 0 (rational 0) := by
  have hcell : Cell 0 0 leastExponent :=
    ⟨.subnormal (by decide), dyadic_zero.le, dyadic_pos Nat.one_pos⟩
  have hrounds := Rounds.of_cell hcell (.inl rfl)
  rwa [dyadic_zero, if_pos (by exact_mod_cast Nat.two_pow_pos mostBits)] at hrounds

theorem IsValue.div_rounds (hu : IsValue u b) (hw : IsValue w c) (hc : 0 < c) : ∃ v, Rounds (b / c) v ∧
    value? (Float.ofModel (Float.Model.pack (UnpackedFloat.div Format.binary64 u w))) = some v := by
  cases hw with
  | zero t => exact absurd hc (lt_irrefl 0)
  | finite hn hd =>
    cases hu with
    | zero s =>
      rw [zero_div]
      exact ⟨rational 0, rounds_zero, value?_pack_zero _⟩
    | finite hm hd => exact div_finite_rounds hm hn

theorem div_rounds (hx : value? x = some (rational b)) (hb : 0 ≤ b) (hy : value? y = some (rational c))
    (hc : 0 < c) : ∃ v, Rounds (b / c) v ∧ value? (x / y) = some v :=
  (isValue_of_value? hx hb).div_rounds (isValue_of_value? hy hc.le) hc

theorem div_atMost (hx : value? x = some (rational b)) (hb : 0 ≤ b) (hy : value? y = some (rational c))
    (hc : 0 < c) : ∃ v, (AtMost (b / c * (1 + ulp)) v ∨ v < rational 1) ∧ value? (x / y) = some v := by
  obtain ⟨v, hrounds, hvalue⟩ := div_rounds hx hb hy hc
  exact ⟨v, hrounds.atMost_or_small, hvalue⟩

-- ---------------------------------------------------------------------------
-- Comparing with a quotient
-- ---------------------------------------------------------------------------

theorem Parts.ofBits_small {bits : Nat} {negative : Bool} (h : Parts.ofBits bits = .finite negative m e) :
    dyadic m e < ceiling := by
  have hfraction : bits % hiddenBit < hiddenBit := Nat.mod_lt _ (by decide)
  unfold Parts.ofBits at h
  dsimp only at h
  split at h
  · split at h <;> cases h
  split at h
  · obtain ⟨-, rfl, rfl⟩ := Parts.finite.inj h
    exact dyadic_small hfraction
  · rename_i hmax hmin
    obtain ⟨-, rfl, rfl⟩ := Parts.finite.inj h
    have hlog : (hiddenBit + bits % hiddenBit).log2 = 52 := log2_hidden (Nat.le_add_right _ _) (by omega)
    refine (dyadic_lt_ceiling_iff hlog).mpr ?_
    have hbiased : bits / hiddenBit % 2048 < 2048 := Nat.mod_lt _ (by decide)
    show (-1074 : Int) + (bits / hiddenBit % 2048 - 1 : Nat) ≤ 971
    omega

theorem IsValue.parts (h : IsValue u b) : ∃ m e, Canonical m e ∧ b = dyadic m e := by
  cases h with
  | zero s => exact ⟨0, leastExponent, .subnormal (by decide), dyadic_zero.symm⟩
  | finite hm hc => exact ⟨_, _, hc, rfl⟩

theorem isDouble_of_value? (h : value? x = some (rational t)) (ht : 0 ≤ t) : IsDouble t where
  parts := (isValue_of_value? h ht).parts
  small := by
    rw [value?] at h
    cases hparts : Parts.of x with
    | nan =>
      rw [hparts] at h
      cases h
    | infinite negative =>
      rw [hparts] at h
      cases negative <;> cases h
    | finite negative m e =>
      have hsmall : dyadic m e < ceiling := Parts.ofBits_small hparts
      rw [hparts] at h
      cases negative with
      | false => rwa [← rational_inj.mp (Option.some.inj h)]
      | true =>
        rw [← rational_inj.mp (Option.some.inj h)]
        exact (neg_le_self (dyadic_nonneg m e)).trans_lt hsmall

theorem Rounds.nonneg (h : Rounds q v) : rational 0 ≤ v := by
  obtain ⟨j, e, k, -, -, rfl⟩ := h
  split
  · exact rational_le.mpr (dyadic_nonneg k e)
  · exact le_top

/-- A double that a rounded quotient is not equal to is reached by it just if the exact quotient reaches it. -/
theorem le_div_iff {z : Float} (hx : value? x = some (rational b)) (hb : 0 ≤ b)
    (hy : value? y = some (rational c)) (hc : 0 < c) (hne : ¬ x / y == z) :
    z ≤ x / y ↔ ∃ w ∈ value? z, w ≤ rational (b / c) := by
  obtain ⟨v, hrounds, hv⟩ := div_rounds hx hb hy hc
  rw [le_iff, hv]
  refine exists_congr fun w => and_congr_right fun hw => ?_
  have hvw : v ≠ w := by
    rintro rfl
    exact hne (beq_iff.mpr ⟨v, hv, hw⟩)
  have hsome : (∃ b ∈ some v, w ≤ b) ↔ w ≤ v := by simp
  rw [hsome]
  induction w using WithBot.recBotCoe with
  | bot => simp
  | coe w =>
    induction w using WithTop.recTopCoe with
    | top =>
      refine iff_of_false (fun h => hvw ?_) (not_le.mpr (rational_lt_top _))
      exact (top_le_iff.mp h)
    | coe t =>
      rcases lt_or_ge t 0 with ht | ht
      · refine iff_of_true ((rational_lt.mpr ht).le.trans hrounds.nonneg) (rational_le.mpr ?_)
        exact ht.le.trans (div_nonneg hb hc.le)
      · have hdouble := isDouble_of_value? hw ht
        constructor
        · intro h
          refine rational_le.mpr (le_of_not_gt fun hlt => hvw ?_)
          exact le_antisymm (hrounds.le_of_ge hdouble hlt.le) h
        · intro h
          exact hrounds.le_of_le hdouble (rational_le.mp h)

end Vigil.Decimal

-- ---------------------------------------------------------------------------
-- Counts
-- ---------------------------------------------------------------------------

namespace Vigil.Count

open Decimal

variable {n : Nat}

theorem le_nearest (hn : 0 < n) : (n : ℚ) ≤ nearest n * (1 + ulp) := by
  obtain ⟨hleast, -⟩ := nearest_bounds (Nat.ne_of_gt hn)
  rcases Nat.lt_or_ge n.log2 52 with hlt | hge
  · rw [nearest_small hlt.le]
    exact le_mul_of_one_le_right (Nat.cast_nonneg n) (by linarith [ulp_pos])
  obtain ⟨k, hk⟩ : ∃ k, n.log2 - 52 = k := ⟨_, rfl⟩
  have hbelow : n ≤ nearest n + 2 ^ k := by
    have hdiv := Nat.lt_div_mul_add (a := n) (Nat.two_pow_pos k)
    have hround := Nat.mul_le_mul_right (2 ^ k) (roundDiv_bounds n (2 ^ k)).1
    rw [nearest, hk]
    omega
  have hunit : 2 ^ 52 * 2 ^ k ≤ nearest n := by
    rw [← Nat.pow_add]
    exact (Nat.pow_le_pow_right Nat.two_pos (by omega)).trans hleast
  have hpart : (2 : ℚ) ^ k ≤ nearest n * ulp := by
    rw [ulp, mul_one_div, le_div_iff₀ (by norm_num), mul_comm]
    exact_mod_cast hunit
  calc (n : ℚ) ≤ nearest n + 2 ^ k := by exact_mod_cast hbelow
    _ ≤ nearest n + nearest n * ulp := by gcongr
    _ = nearest n * (1 + ulp) := by ring

theorem value_near (hn : 0 < n) (hlog : n.log2 < 1023) :
    value n = rational (nearest n) ∧ (0 : ℚ) < nearest n ∧ (n : ℚ) ≤ nearest n * (1 + ulp) := by
  obtain ⟨hleast, hmost⟩ := nearest_bounds (Nat.ne_of_gt hn)
  have hlt : nearest n < ceiling :=
    hmost.trans_lt (Nat.pow_lt_pow_right Nat.one_lt_two (show n.log2 + 1 < 1024 by omega))
  refine ⟨if_pos hlt, Nat.cast_pos.mpr ((Nat.two_pow_pos _).trans_le hleast), le_nearest hn⟩

end Vigil.Count
