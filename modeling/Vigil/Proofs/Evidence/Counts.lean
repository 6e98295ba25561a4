import Vigil.Settings.Basic

/-!
# Counts as doubles

Settings and shares compare counts as doubles. `Count.ofNat_small` says which double a count of at most
fifty-three bits is, its own value with no rounding, and `Count.unpack_large` how any other is rounded. Counts
that are not rounded are added and divided as such; in particular a count divided by itself is one.
-/

namespace Vigil.Count

open Float.Model Float.Model.UnpackedFloat

-- ---------------------------------------------------------------------------
-- Rounding
-- ---------------------------------------------------------------------------

theorem shift_succ (em : ExtendedMantissa) (k : Nat) : em >>> (k + 1) = (em >>> k).shiftRightOne := rfl

theorem shift_mantissa (em : ExtendedMantissa) (k : Nat) :
    (em >>> k).mantissa = em.mantissa >>> k := by
  induction k with
  | zero => rfl
  | succ k ih => rw [shift_succ, ExtendedMantissa.shiftRightOne, ih, Nat.shiftRight_succ]

theorem shift_exact (m k : Nat) :
    (⟨m <<< k, false, false⟩ : ExtendedMantissa) >>> k = ⟨m, false, false⟩ := by
  induction k generalizing m with
  | zero => rfl
  | succ k ih =>
    have hdouble : m <<< (k + 1) = (2 * m) <<< k := Nat.shiftLeft_succ_inside m k
    rw [shift_succ, hdouble, ih]
    simp [ExtendedMantissa.shiftRightOne]

theorem rounded_cases (em : ExtendedMantissa) :
    em.roundedMantissa = em.mantissa ∨ em.roundedMantissa = em.mantissa + 1 := by
  obtain ⟨m, round, sticky⟩ := em
  match round, sticky with
  | false, false | false, true => exact .inl rfl
  | true, true => exact .inr rfl
  | true, false =>
    show m + m % 2 = m ∨ m + m % 2 = m + 1
    omega

theorem targetExponent_eq {t : Int} (h : -1074 ≤ t - 53) :
    Format.binary64.targetExponent t = t - 53 := by
  show max (t - 53) (-1074) = t - 53
  omega

theorem shiftToTarget_normal {m : Nat} {e : Int} (hm : m.log2 = 52) (he : -1074 ≤ e) :
    shiftToTargetExponent Format.binary64 m e .exact = (⟨m, false, false⟩, e) := by
  have ht : Format.binary64.targetExponent (totalExponent m e) = e := by
    rw [totalExponent, hm, targetExponent_eq (by omega)]
    omega
  simp only [shiftToTargetExponent, ht, shiftToExponent, Int.sub_self]
  exact Prod.ext rfl (Int.add_zero e)

theorem log2_shift {m : Nat} (hm : m ≠ 0) (k : Nat) : (m <<< k).log2 = m.log2 + k := by
  have hpow : 0 < 2 ^ k := Nat.two_pow_pos k
  rw [Nat.shiftLeft_eq, Nat.log2_eq_iff (Nat.mul_ne_zero hm (Nat.ne_of_gt hpow)), Nat.pow_add, Nat.add_right_comm,
    Nat.pow_add]
  constructor
  · exact Nat.mul_le_mul_right _ (Nat.log2_self_le hm)
  · exact Nat.mul_lt_mul_of_pos_right Nat.lt_log2_self hpow

theorem pos_of_log2 {m : Nat} (hm : m.log2 = 52) : 0 < m := by
  refine Nat.pos_of_ne_zero ?_
  rintro rfl
  simp at hm

/-- Rounding shifts twice: what is rounded up can have outgrown the format. -/
theorem round_of_shifts {S : Format} {s : Sign} {M : Nat} {e e₁ e₂ : Int} {a : Accuracy}
    {em fm : ExtendedMantissa} (hfirst : shiftToTargetExponent S M e a = (em, e₁))
    (hsecond : shiftToTargetExponent S em.roundedMantissa e₁ .exact = (fm, e₂))
    (hpos : 0 < fm.mantissa) : roundWithAccuracy S s M e a = .finite s fm.mantissa e₂ hpos := by
  unfold roundWithAccuracy
  rw [hfirst]
  dsimp only
  rw [hsecond]
  exact dif_neg (Nat.ne_of_gt hpos)

theorem round_normal {m : Nat} {e : Int} (s : Sign) (k : Nat) (hm : m.log2 = 52) (he : -1074 ≤ e) :
    roundWithAccuracy Format.binary64 s (m <<< k) (e - k) .exact = .finite s m e (pos_of_log2 hm) := by
  have hne := Nat.ne_of_gt (pos_of_log2 hm)
  have ht : Format.binary64.targetExponent (totalExponent (m <<< k) (e - k)) = e := by
    rw [totalExponent, log2_shift hne, hm, targetExponent_eq (by omega)]
    omega
  have hfirst : shiftToTargetExponent Format.binary64 (m <<< k) (e - k) .exact =
      (⟨m, false, false⟩, e) := by
    have hk : (e - (e - k)).toNat = k := by omega
    simp only [shiftToTargetExponent, ht, shiftToExponent, hk]
    exact Prod.ext (shift_exact m k) (by omega)
  exact round_of_shifts hfirst (shiftToTarget_normal hm he) (pos_of_log2 hm)

theorem round_large {M : Nat} {e : Int} (s : Sign) (hM : 52 ≤ M.log2)
    (he : -1074 ≤ e + (M.log2 - 52 : Nat)) :
    ∃ (m j : Nat), ∃ hm : m.log2 = 52,
      m <<< j = ((⟨M, false, false⟩ : ExtendedMantissa) >>> (M.log2 - 52)).roundedMantissa ∧
      roundWithAccuracy Format.binary64 s M e .exact =
        .finite s m (e + (M.log2 - 52 : Nat) + j) (pos_of_log2 hm) := by
  have hne : M ≠ 0 := by
    rintro rfl
    simp at hM
  obtain ⟨k, hk⟩ : ∃ k, M.log2 - 52 = k := ⟨_, rfl⟩
  rw [hk] at he ⊢
  have ht : Format.binary64.targetExponent (totalExponent M e) = e + k := by
    rw [totalExponent, targetExponent_eq (by omega)]
    omega
  obtain ⟨em, hem⟩ : ∃ em, em = (⟨M, false, false⟩ : ExtendedMantissa) >>> k := ⟨_, rfl⟩
  have hfirst : shiftToTargetExponent Format.binary64 M e .exact = (em, e + k) := by
    have hamount : (e + k - e).toNat = k := by omega
    simp only [shiftToTargetExponent, ht, shiftToExponent, hamount, hem]
    rfl
  have hmantissa : em.mantissa = M / 2 ^ k := by rw [hem, shift_mantissa, Nat.shiftRight_eq_div_pow]
  have hlow : 2 ^ 52 ≤ em.mantissa := by
    rw [hmantissa, Nat.le_div_iff_mul_le (Nat.two_pow_pos k), ← Nat.pow_add]
    have hself := Nat.log2_self_le hne
    rwa [show M.log2 = 52 + k by omega] at hself
  have hhigh : em.mantissa < 2 ^ 53 := by
    rw [hmantissa, Nat.div_lt_iff_lt_mul (Nat.two_pow_pos k), ← Nat.pow_add]
    have hself : M < 2 ^ (M.log2 + 1) := Nat.lt_log2_self
    rwa [show M.log2 + 1 = 53 + k by omega] at hself
  -- rounding up can carry into one more bit, and then the exponent goes up by one
  by_cases hover : em.roundedMantissa = 2 ^ 53
  · have ht' : Format.binary64.targetExponent (totalExponent (2 ^ 53) (e + k)) = e + k + 1 := by
      rw [totalExponent, Nat.log2_two_pow, targetExponent_eq (by omega)]
      omega
    have hsecond : shiftToTargetExponent Format.binary64 em.roundedMantissa (e + k) .exact =
        (⟨2 ^ 52, false, false⟩, e + k + 1) := by
      have hamount : (e + k + 1 - (e + k)).toNat = 1 := by omega
      simp only [hover, shiftToTargetExponent, ht', shiftToExponent, hamount]
      rfl
    exact ⟨2 ^ 52, 1, Nat.log2_two_pow, hem ▸ hover.symm, round_of_shifts hfirst hsecond _⟩
  · have hbounds : 2 ^ 52 ≤ em.roundedMantissa ∧ em.roundedMantissa < 2 ^ 53 := by
      rcases rounded_cases em with h | h <;> omega
    have hlog : em.roundedMantissa.log2 = 52 := (Nat.log2_eq_iff (by omega)).mpr hbounds
    refine ⟨em.roundedMantissa, 0, hlog, by rw [hem, Nat.shiftLeft_zero], ?_⟩
    rw [Int.natCast_zero, Int.add_zero]
    exact round_of_shifts hfirst (shiftToTarget_normal hlog he) (pos_of_log2 hlog)

-- ---------------------------------------------------------------------------
-- Packing
-- ---------------------------------------------------------------------------

theorem append_implicit (v : BitVec 52) : (1#1 ++ v).toNat = 4503599627370496 + v.toNat := by
  rw [BitVec.toNat_append, ← Nat.shiftLeft_add_eq_or_of_lt v.isLt]
  rfl

theorem sign_packComponents (s : Sign) (e : BitVec 11) (m : BitVec 52) :
    Sign.ofBitVec (unpackSign (packComponents Format.binary64 s e m)) = s := by
  have hsign : unpackSign (packComponents Format.binary64 s e m) = s.toBitVec := by
    unfold unpackSign packComponents BitVec.extractLsb
    rw [BitVec.extractLsb'_append_eq_of_le (by decide), BitVec.extractLsb'_append_eq_of_le (by decide)]
    cases s <;> rfl
  rw [hsign]
  cases s <;> rfl

theorem finite_congr {s s' : Sign} {m m' : Nat} {e e' : Int} {hm : 0 < m} {hm' : 0 < m'} (hsign : s = s')
    (hmantissa : m = m') (hexponent : e = e') :
    UnpackedFloat.finite s m e hm = UnpackedFloat.finite s' m' e' hm' := by
  subst hsign hmantissa hexponent
  rfl

/-- A double whose exponent is neither the least nor the greatest has its leading bit left out. -/
theorem unpack_normal {v : BitVec Format.binary64.numBits} (hmin : unpackExponent v ≠ 0#_)
    (hmax : unpackExponent v ≠ -1#_) :
    UnpackedFloat.unpack Format.binary64 v =
      .finite (Sign.ofBitVec (unpackSign v)) (1#1 ++ unpackMantissa v).toNat
        ((unpackExponent v).toNat - 1075) (by rw [append_implicit]; omega) :=
  (if_neg hmax).trans (if_neg hmin)

theorem unpack_of_components {s : Sign} {b : Nat} {m : Nat} (hb : 0 < b) (hb' : b < 2047)
    (hm : m.log2 = 52) :
    UnpackedFloat.unpack Format.binary64
        (packComponents Format.binary64 s (BitVec.ofNat 11 b) (BitVec.ofNat 52 m)) =
      .finite s m (b - 1075) (pos_of_log2 hm) := by
  obtain ⟨v, hv⟩ : ∃ v, v = packComponents Format.binary64 s (BitVec.ofNat 11 b) (BitVec.ofNat 52 m) :=
    ⟨_, rfl⟩
  have hsign : Sign.ofBitVec (unpackSign v) = s := hv ▸ sign_packComponents s _ _
  have hfield : unpackExponent v = BitVec.ofNat 11 b := hv ▸ unpackExponent_packComponents
  have hrest : unpackMantissa v = BitVec.ofNat 52 m := hv ▸ unpackMantissa_packComponents
  have hexponent : (unpackExponent v).toNat = b := by
    rw [hfield, BitVec.toNat_ofNat]
    exact Nat.mod_eq_of_lt (show b < 2 ^ 11 by omega)
  have hmin : unpackExponent v ≠ 0#_ := by
    intro h
    rw [← hexponent, h] at hb
    exact absurd hb (by decide)
  have hmax : unpackExponent v ≠ -1#_ := by
    intro h
    rw [← hexponent, h] at hb'
    exact absurd hb' (by decide)
  have hmantissa : (1#1 ++ unpackMantissa v).toNat = m := by
    obtain ⟨hlow, hhigh⟩ := (Nat.log2_eq_iff (Nat.ne_of_gt (pos_of_log2 hm))).mp hm
    rw [hrest, append_implicit, BitVec.toNat_ofNat]
    omega
  rw [← hv]
  exact (unpack_normal hmin hmax).trans (finite_congr hsign hmantissa (by rw [hexponent]))

theorem unpack_pack_eq (f : UnpackedFloat) :
    (Float.Model.pack f).unpack =
      UnpackedFloat.unpack Format.binary64 (UnpackedFloat.pack Format.binary64 f) := rfl

theorem biased_eq (e : Int) :
    e + Format.binary64.exponentBias + Format.binary64.mantissaBitsWithoutImplicit = e + 1075 := by
  show e + 1023 + 52 = e + 1075
  omega

theorem unpack_pack {m : Nat} {e : Int} (s : Sign) (hm : m.log2 = 52) (he : -1074 ≤ e) (hmax : e ≤ 971) :
    (Float.Model.pack (.finite s m e (pos_of_log2 hm))).unpack = .finite s m e (pos_of_log2 hm) := by
  obtain ⟨b, hb⟩ : ∃ b : Nat, e + 1075 = b := ⟨(e + 1075).toNat, by omega⟩
  have hbiased : (e + Format.binary64.exponentBias + Format.binary64.mantissaBitsWithoutImplicit).toNat =
      b := by
    rw [biased_eq, hb, Int.toNat_natCast]
  have hpack : UnpackedFloat.pack Format.binary64 (.finite s m e (pos_of_log2 hm)) =
      packComponents Format.binary64 s (BitVec.ofNat 11 b) (BitVec.ofNat 52 m) := by
    have hfits : ¬ 2 ^ 11 ≤ b + 1 := by omega
    have hnormal : m.log2 + 1 = Format.binary64.mantissaBits := by rw [hm]; rfl
    rw [← hbiased] at hfits ⊢
    exact (if_neg hfits).trans (if_pos hnormal)
  rw [unpack_pack_eq, hpack, unpack_of_components (by omega) (by omega) hm]
  exact finite_congr rfl rfl (by omega)

theorem unpack_pack_overflow {m : Nat} {e : Int} (s : Sign) (hm : 0 < m) (he : 971 < e) :
    (Float.Model.pack (.finite s m e hm)).unpack = .infinity s := by
  have hover : 2 ^ 11 ≤
      (e + Format.binary64.exponentBias + Format.binary64.mantissaBitsWithoutImplicit).toNat + 1 := by
    rw [biased_eq]
    omega
  have hpack : UnpackedFloat.pack Format.binary64 (.finite s m e hm) =
      packedInfinity Format.binary64 s := if_pos hover
  rw [unpack_pack_eq, hpack]
  cases s <;> rfl

-- ---------------------------------------------------------------------------
-- Counts
-- ---------------------------------------------------------------------------

theorem log2_le {n : Nat} (h : n < 9007199254740992) : n.log2 ≤ 52 := by
  rcases Nat.eq_zero_or_pos n with rfl | hn
  · decide
  · exact Nat.le_of_lt_succ ((Nat.log2_lt (Nat.ne_of_gt hn)).mpr h)

/-- The mantissa of a count that fits into fifty-three bits. -/
def mantissa (n : Nat) : Nat := n <<< (52 - n.log2)

theorem mantissa_log2 {n : Nat} (hn : 0 < n) (hle : n.log2 ≤ 52) : (mantissa n).log2 = 52 := by
  rw [mantissa, log2_shift (Nat.ne_of_gt hn)]
  omega

theorem round_shifted {n j : Nat} (hn : 0 < n) (hle : n.log2 ≤ 52) (hj : 52 - n.log2 ≤ j) (s : Sign) :
    roundWithAccuracy Format.binary64 s (n <<< j) (-j) .exact =
      .finite s (mantissa n) (n.log2 - 52) (pos_of_log2 (mantissa_log2 hn hle)) := by
  obtain ⟨k, rfl⟩ := Nat.exists_eq_add_of_le hj
  have hshift : n <<< (52 - n.log2 + k) = mantissa n <<< k := Nat.shiftLeft_add n _ k
  have hexponent : -((52 - n.log2 + k : Nat) : Int) = n.log2 - 52 - k := by omega
  rw [hshift, hexponent]
  exact round_normal s k (mantissa_log2 hn hle) (by omega)

theorem model_ofNat {n : Nat} (hn : 0 < n) (hle : n.log2 ≤ 52) :
    UnpackedFloat.ofNat Format.binary64 n =
      .finite .positive (mantissa n) (n.log2 - 52) (pos_of_log2 (mantissa_log2 hn hle)) := by
  have ht : Format.binary64.targetExponent (totalExponent n 0) = n.log2 - 52 := by
    rw [totalExponent, targetExponent_eq (by omega)]
    omega
  have hdecrease : decreaseExponent n 0 (n.log2 - 52) = (mantissa n, (n.log2 : Int) - 52) := by
    have hamount : ((0 : Int) - (n.log2 - 52)).toNat = 52 - n.log2 := by omega
    simp only [decreaseExponent, hamount]
    exact Prod.ext rfl (by omega)
  have hround : UnpackedFloat.round Format.binary64 .positive n 0 =
      roundWithAccuracy Format.binary64 .positive (mantissa n) (n.log2 - 52) .exact := by
    simp only [UnpackedFloat.round, ht, hdecrease]
  have hcompare : compare (n : Int) 0 = .gt := Int.compare_eq_gt.mpr (by omega)
  have hofNat : UnpackedFloat.ofNat Format.binary64 n = UnpackedFloat.round Format.binary64 .positive n 0 := by
    simp only [UnpackedFloat.ofNat, UnpackedFloat.ofInt, UnpackedFloat.normalize, hcompare,
      Int.toNat_natCast]
  have hexact := round_normal .positive 0 (mantissa_log2 hn hle) (e := n.log2 - 52) (by omega)
  rw [Nat.shiftLeft_zero, Int.natCast_zero, Int.sub_zero] at hexact
  rw [hofNat, hround, hexact]

theorem toFloat_small {n : Nat} (hn : 0 < n) (hle : n.log2 ≤ 52) :
    n.toUInt64.toFloat.toModel.unpack =
      .finite .positive (mantissa n) (n.log2 - 52) (pos_of_log2 (mantissa_log2 hn hle)) := by
  have hlt : n < 2 ^ 53 := (Nat.log2_lt (Nat.ne_of_gt hn)).mp (Nat.lt_succ_of_le hle)
  have hword : n.toUInt64.toNat = n := Nat.mod_eq_of_lt (by omega)
  show (Float.Model.pack (UnpackedFloat.ofNat Format.binary64 n.toUInt64.toNat)).unpack = _
  rw [hword, model_ofNat hn hle]
  exact unpack_pack .positive (mantissa_log2 hn hle) (by omega) (by omega)

theorem mul_finite {m k : Nat} {e f : Int} (hm : 0 < m) (hk : 0 < k) :
    UnpackedFloat.mul Format.binary64 (.finite .positive m e hm) (.finite .positive k f hk) =
      roundWithAccuracy Format.binary64 .positive (m * k) (e + f) .exact := rfl

theorem mul_one {m : Nat} {e : Int} (hm : m.log2 = 52) (he : -1074 ≤ e) :
    UnpackedFloat.mul Format.binary64 (.finite .positive m e (pos_of_log2 hm))
        (.finite .positive (1 <<< 52) (-52) (by decide)) =
      .finite .positive m e (pos_of_log2 hm) := by
  have hround := round_normal .positive 52 hm he
  rw [Nat.shiftLeft_eq] at hround
  exact (mul_finite _ _).trans hround

theorem toModel_ofNat {n : Nat} (hn : 0 < n) (hle : n.log2 ≤ 52) :
    (Float.ofNat n).toModel = Float.Model.pack
      (.finite .positive (mantissa n) (n.log2 - 52) (pos_of_log2 (mantissa_log2 hn hle))) := by
  have hlt : n < 2 ^ 53 := (Nat.log2_lt (Nat.ne_of_gt hn)).mp (Nat.lt_succ_of_le hle)
  have hfloat : Float.ofNat n = n.toUInt64.toFloat * Float.ofBits 0x3FF0000000000000 := by
    show Float.ofScientific n false 0 = _
    rw [Float.ofScientific, dif_pos ⟨hlt, by decide⟩]
    rfl
  have hone : (Float.ofBits 0x3FF0000000000000).toModel.unpack =
      .finite .positive (1 <<< 52) (-52) (by decide) := by
    rfl
  have hproduct : (n.toUInt64.toFloat * Float.ofBits 0x3FF0000000000000).toModel =
      Float.Model.pack (UnpackedFloat.mul Format.binary64 n.toUInt64.toFloat.toModel.unpack
        (Float.ofBits 0x3FF0000000000000).toModel.unpack) := rfl
  rw [hfloat, hproduct, toFloat_small hn hle, hone, mul_one (mantissa_log2 hn hle) (by omega)]

theorem ofNat_small {n : Nat} (hn : 0 < n) (hle : n.log2 ≤ 52) :
    (Float.ofNat n).toModel.unpack =
      .finite .positive (mantissa n) (n.log2 - 52) (pos_of_log2 (mantissa_log2 hn hle)) := by
  rw [toModel_ofNat hn hle]
  exact unpack_pack .positive (mantissa_log2 hn hle) (by omega) (by omega)

theorem ofScientific_eq {n : Nat} (hn : n ≠ 0) :
    UnpackedFloat.ofScientific Format.binary64 n 0 =
      roundWithAccuracy Format.binary64 .positive (n <<< 53) (-53) .exact := by
  have hbelow : ¬ (0 : Int) > 2 ^ Format.binary64.exponentBits := by decide
  have habove : ¬ (0 : Int) < -(2 ^ Format.binary64.exponentBits + (n.log2 : Int)) := by
    show ¬ (0 : Int) < -(2 ^ 11 + (n.log2 : Int))
    omega
  have hbits : Format.binary64.mantissaBits = 53 := rfl
  rw [UnpackedFloat.ofScientific, dif_neg hn, if_neg hbelow, if_neg habove, if_pos (Int.le_refl 0),
    mul_finite, Int.toNat_zero, Nat.pow_zero, Nat.mul_one, Int.add_zero, hbits]
  rfl

/-- A larger count is rounded, or too large for a double. -/
theorem unpack_large {n : Nat} (hlog : 53 ≤ n.log2) :
    ∃ (m j : Nat), ∃ hm : m.log2 = 52,
      m <<< j = ((⟨n <<< 53, false, false⟩ : ExtendedMantissa) >>> (n.log2 + 1)).roundedMantissa ∧
      (Float.ofNat n).toModel.unpack = if (n.log2 : Int) - 52 + j ≤ 971
        then .finite .positive m (n.log2 - 52 + j) (pos_of_log2 hm) else .infinity .positive := by
  have hne : n ≠ 0 := by
    rintro rfl
    simp at hlog
  have hn : 2 ^ 53 ≤ n := (Nat.le_log2 hne).mp hlog
  have hshift : (n <<< 53).log2 = n.log2 + 53 := log2_shift hne 53
  have hbits : n.log2 + 53 - 52 = n.log2 + 1 := by omega
  obtain ⟨m, j, hm, hrounded, hround⟩ :=
    round_large (M := n <<< 53) (e := -53) .positive (by omega) (by omega)
  rw [hshift, hbits] at hrounded
  have hexponent : (-53 : Int) + ((n <<< 53).log2 - 52 : Nat) + j = n.log2 - 52 + j := by omega
  rw [hexponent] at hround
  have hfloat : (Float.ofNat n).toModel =
      Float.Model.pack (UnpackedFloat.ofScientific Format.binary64 n 0) := by
    have hslow : Float.ofNat n = Float.ofModel (Float.Model.ofScientific n 0) := by
      show Float.ofScientific n false 0 = _
      rw [Float.ofScientific, dif_neg (by omega)]
      rfl
    rw [hslow]
    rfl
  refine ⟨m, j, hm, hrounded, ?_⟩
  rw [hfloat, ofScientific_eq hne, hround]
  by_cases hfits : (n.log2 : Int) - 52 + j ≤ 971
  · rw [if_pos hfits]
    exact unpack_pack .positive hm (by omega) hfits
  · rw [if_neg hfits]
    exact unpack_pack_overflow .positive (pos_of_log2 hm) (by omega)

theorem log2_mono {a b : Nat} (ha : 0 < a) (hab : a ≤ b) : a.log2 ≤ b.log2 :=
  (Nat.le_log2 (by omega)).mpr (Nat.le_trans (Nat.log2_self_le (by omega)) hab)

-- ---------------------------------------------------------------------------
-- Sums and quotients
-- ---------------------------------------------------------------------------

theorem eq_ofNat {x : Float} {n : Nat} (hn : 0 < n) (hle : n.log2 ≤ 52)
    (h : x.toModel = Float.Model.pack
      (.finite .positive (mantissa n) (n.log2 - 52) (pos_of_log2 (mantissa_log2 hn hle)))) :
    x = Float.ofNat n := by
  calc x = Float.ofModel x.toModel := rfl
    _ = Float.ofModel (Float.ofNat n).toModel := by rw [h, toModel_ofNat hn hle]
    _ = Float.ofNat n := rfl

theorem decreaseExponent_mantissa {n j : Nat} (hle : n.log2 ≤ 52) (hj : 52 - n.log2 ≤ j) :
    (decreaseExponent (mantissa n) (n.log2 - 52) (-j)).1 = n <<< j := by
  obtain ⟨k, rfl⟩ := Nat.exists_eq_add_of_le hj
  have hamount : ((n.log2 : Int) - 52 - -((52 - n.log2 + k : Nat) : Int)).toNat = k := by omega
  simp only [decreaseExponent, hamount]
  exact (Nat.shiftLeft_add n _ k).symm

theorem normalize_shifted {n j : Nat} (hn : 0 < n) (hle : n.log2 ≤ 52) (hj : 52 - n.log2 ≤ j) :
    UnpackedFloat.normalize Format.binary64 ((n <<< j : Nat) : Int) (-j) .positive =
      .finite .positive (mantissa n) (n.log2 - 52) (pos_of_log2 (mantissa_log2 hn hle)) := by
  have hpos : 0 < n <<< j := by
    rw [Nat.shiftLeft_eq]
    exact Nat.mul_pos hn (Nat.two_pow_pos j)
  have hcompare : compare ((n <<< j : Nat) : Int) 0 = .gt := Int.compare_eq_gt.mpr (by omega)
  have ht : Format.binary64.targetExponent (totalExponent (n <<< j) (-j)) = n.log2 - 52 := by
    rw [totalExponent, log2_shift (Nat.ne_of_gt hn), targetExponent_eq (by omega)]
    omega
  have hamount : (-(j : Int) - (n.log2 - 52)).toNat = 0 := by omega
  have hround : UnpackedFloat.normalize Format.binary64 ((n <<< j : Nat) : Int) (-j) .positive =
      roundWithAccuracy Format.binary64 .positive (n <<< j) (-j) .exact := by
    simp only [UnpackedFloat.normalize, hcompare, Int.toNat_natCast, UnpackedFloat.round, ht,
      decreaseExponent, hamount]
    rw [Nat.shiftLeft_zero, Int.natCast_zero, Int.sub_zero]
  rw [hround]
  exact round_shifted hn hle hj .positive

theorem ofNat_add {a b : Nat} (ha : 0 < a) (hb : 0 < b) (hle : (a + b).log2 ≤ 52) :
    Float.ofNat a + Float.ofNat b = Float.ofNat (a + b) := by
  have hloga := log2_mono ha (Nat.le_add_right a b)
  have hlogb := log2_mono hb (Nat.le_add_left b a)
  obtain ⟨j, hj⟩ : ∃ j : Nat, min ((a.log2 : Int) - 52) (b.log2 - 52) = -j :=
    ⟨52 - min a.log2 b.log2, by omega⟩
  have hsum : UnpackedFloat.add Format.binary64
      (.finite .positive (mantissa a) (a.log2 - 52) (pos_of_log2 (mantissa_log2 ha (by omega))))
      (.finite .positive (mantissa b) (b.log2 - 52) (pos_of_log2 (mantissa_log2 hb (by omega)))) =
      UnpackedFloat.normalize Format.binary64 (((a + b) <<< j : Nat) : Int) (-j) .positive := by
    show UnpackedFloat.normalize Format.binary64
      (((decreaseExponent (mantissa a) (a.log2 - 52) (min ((a.log2 : Int) - 52) (b.log2 - 52))).1 : Int) +
        (decreaseExponent (mantissa b) (b.log2 - 52) (min ((a.log2 : Int) - 52) (b.log2 - 52))).1)
      (min ((a.log2 : Int) - 52) (b.log2 - 52)) .positive = _
    rw [hj, decreaseExponent_mantissa (by omega) (by omega), decreaseExponent_mantissa (by omega) (by omega),
      ← Int.natCast_add, Nat.shiftLeft_eq, Nat.shiftLeft_eq, Nat.shiftLeft_eq, Nat.add_mul]
  refine eq_ofNat (by omega) hle ?_
  have hmodel : (Float.ofNat a + Float.ofNat b).toModel =
      Float.Model.pack (UnpackedFloat.add Format.binary64 (Float.ofNat a).toModel.unpack
        (Float.ofNat b).toModel.unpack) := rfl
  rw [hmodel, ofNat_small ha (by omega), ofNat_small hb (by omega), hsum,
    normalize_shifted (by omega) hle (by omega)]

theorem log2_mul_le {q k : Nat} (hq : 0 < q) (hk : 0 < k) : (q * k).log2 ≤ q.log2 + k.log2 + 1 := by
  have hne := Nat.ne_of_gt (Nat.mul_pos hq hk)
  refine Nat.le_of_lt_succ ((Nat.log2_lt hne).mpr ?_)
  calc q * k < 2 ^ (q.log2 + 1) * 2 ^ (k.log2 + 1) :=
        Nat.mul_lt_mul'' Nat.lt_log2_self Nat.lt_log2_self
    _ = 2 ^ (q.log2 + k.log2 + 1 + 1) := by
        rw [← Nat.pow_add]
        congr 1
        omega

theorem divCore_mantissa {q k : Nat} (hq : 0 < q) (hk : 0 < k) (hle : (q * k).log2 ≤ 52) :
    divCore Format.binary64 (mantissa (q * k)) ((q * k).log2 - 52) (mantissa k) (k.log2 - 52) =
      (q <<< (53 - ((q * k).log2 - k.log2)), -((53 - ((q * k).log2 - k.log2) : Nat) : Int), .exact) := by
  have hlog := log2_mono hk (Nat.le_mul_of_pos_left k hq)
  have hm := mantissa_log2 (Nat.mul_pos hq hk) hle
  have hm' := mantissa_log2 hk (Nat.le_trans hlog hle)
  obtain ⟨j, hj⟩ : ∃ j, 53 - ((q * k).log2 - k.log2) = j := ⟨_, rfl⟩
  have ht : min (((q * k).log2 : Int) - 52 - (k.log2 - 52)) (Format.binary64.targetExponent
      (totalExponent (mantissa (q * k)) ((q * k).log2 - 52) - totalExponent (mantissa k) (k.log2 - 52))) =
      -j := by
    rw [totalExponent, totalExponent, hm, hm', targetExponent_eq (by omega)]
    omega
  have hamount : (((q * k).log2 : Int) - 52 - (k.log2 - 52) - -(j : Int)).toNat = 53 := by omega
  have hshift : mantissa (q * k) <<< 53 = mantissa k * (q <<< j) := by
    simp only [mantissa, Nat.shiftLeft_eq]
    have hpow : 2 ^ (52 - (q * k).log2) * 2 ^ 53 = 2 ^ (52 - k.log2) * 2 ^ j := by
      rw [← Nat.pow_add, ← Nat.pow_add]
      congr 1
      omega
    calc q * k * 2 ^ (52 - (q * k).log2) * 2 ^ 53
        = q * k * (2 ^ (52 - (q * k).log2) * 2 ^ 53) := Nat.mul_assoc _ _ _
      _ = q * k * (2 ^ (52 - k.log2) * 2 ^ j) := by rw [hpow]
      _ = k * 2 ^ (52 - k.log2) * (q * 2 ^ j) := by
        rw [Nat.mul_comm q k, Nat.mul_mul_mul_comm]
  simp only [divCore, ht, hamount, hj, hshift, Nat.mul_mod_right,
    Nat.mul_div_cancel_left _ (pos_of_log2 hm')]
  rfl

theorem ofNat_mul_div {q k : Nat} (hq : 0 < q) (hk : 0 < k) (hle : (q * k).log2 ≤ 52) :
    Float.ofNat (q * k) / Float.ofNat k = Float.ofNat q := by
  have hqk := Nat.mul_pos hq hk
  have hlogq := log2_mono hq (Nat.le_mul_of_pos_right q hk)
  have hlogk := log2_mono hk (Nat.le_mul_of_pos_left k hq)
  have hmul := log2_mul_le hq hk
  have hquotient : UnpackedFloat.div Format.binary64
      (.finite .positive (mantissa (q * k)) ((q * k).log2 - 52) (pos_of_log2 (mantissa_log2 hqk hle)))
      (.finite .positive (mantissa k) (k.log2 - 52) (pos_of_log2 (mantissa_log2 hk (by omega)))) =
      .finite .positive (mantissa q) (q.log2 - 52) (pos_of_log2 (mantissa_log2 hq (by omega))) := by
    show (match divCore Format.binary64 (mantissa (q * k)) ((q * k).log2 - 52) (mantissa k)
        (k.log2 - 52) with
      | (m, e, a) => roundWithAccuracy Format.binary64 (Sign.positive / Sign.positive) m e a) = _
    rw [divCore_mantissa hq hk hle]
    exact round_shifted hq (by omega) (by omega) .positive
  refine eq_ofNat hq (by omega) ?_
  have hmodel : (Float.ofNat (q * k) / Float.ofNat k).toModel =
      Float.Model.pack (UnpackedFloat.div Format.binary64 (Float.ofNat (q * k)).toModel.unpack
        (Float.ofNat k).toModel.unpack) := rfl
  rw [hmodel, ofNat_small hqk hle, ofNat_small hk (by omega), hquotient]

theorem ofNat_div_self {n : Nat} (hn : 0 < n) (hle : n.log2 ≤ 52) :
    Float.ofNat n / Float.ofNat n = 1 := by
  have hquotient := ofNat_mul_div Nat.one_pos hn (by rwa [Nat.one_mul])
  rwa [Nat.one_mul] at hquotient

end Vigil.Count
