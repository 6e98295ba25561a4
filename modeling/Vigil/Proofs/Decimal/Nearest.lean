import Vigil.Decimal.Fixed
import Vigil.Proofs.Decimal.Exact

/-!
# Counts rounded to doubles

A count of at most fifty-three bits is its own double, and any other is rounded. `Count.value?_ofNat` says
which value its double has: that of `Count.nearest`, or none that is finite. Rounding keeps counts in order
(`Count.value_mono`), and a count that is not rounded stays apart from all others (`Count.value_le_iff`,
`Count.le_value_iff`).
-/

namespace Vigil.Decimal

open Float.Model.UnpackedFloat Vigil.Count

-- ---------------------------------------------------------------------------
-- Rounding to the nearest
-- ---------------------------------------------------------------------------

theorem roundDiv_bounds (num den : Nat) :
    num / den ≤ roundDiv num den ∧ roundDiv num den ≤ num / den + 1 := by
  grind [roundDiv]

theorem roundDiv_mono {a b : Nat} (hab : a ≤ b) (den : Nat) : roundDiv a den ≤ roundDiv b den := by
  have hq : a / den ≤ b / den := Nat.div_le_div_right hab
  rcases Nat.lt_or_eq_of_le hq with hlt | heq
  · exact (roundDiv_bounds a den).2.trans (hlt.trans_le (roundDiv_bounds b den).1)
  · have hr : a % den ≤ b % den := by
      have ha := Nat.div_add_mod a den
      have hb := Nat.div_add_mod b den
      rw [heq] at ha
      omega
    rw [roundDiv, roundDiv, heq]
    grind

theorem roundDiv_mul (q : Nat) {den : Nat} (hden : 0 < den) : roundDiv (q * den) den = q := by
  simp [roundDiv, hden]

theorem roundDiv_mul_mul (num den : Nat) {c : Nat} (hc : 0 < c) :
    roundDiv (num * c) (den * c) = roundDiv num den := by
  have hdouble (r : Nat) : 2 * (r * c) = 2 * r * c := (Nat.mul_assoc 2 r c).symm
  simp only [roundDiv, Nat.mul_div_mul_right _ _ hc, Nat.mul_mod_mul_right, hdouble, Nat.mul_lt_mul_right hc]

theorem mod_two_pow_succ (M k : Nat) : M % 2 ^ (k + 1) = M % 2 ^ k + 2 ^ k * (M / 2 ^ k % 2) := by
  rw [Nat.pow_succ, Nat.mod_mul]

/-- Of the bits that are shifted out, the last one is kept, and whether there is any other. -/
theorem shift_succ_eq (M k : Nat) : (⟨M, false, false⟩ : ExtendedMantissa) >>> (k + 1) =
    ⟨M / 2 ^ (k + 1), M / 2 ^ k % 2 != 0, M % 2 ^ k != 0⟩ := by
  induction k with
  | zero =>
    have hstart : (⟨M, false, false⟩ : ExtendedMantissa) >>> 0 = ⟨M, false, false⟩ := rfl
    rw [shift_succ, hstart, ExtendedMantissa.shiftRightOne]
    simp [Nat.mod_one]
  | succ k ih =>
    have hlow := mod_two_pow_succ M k
    rw [shift_succ, ih, ExtendedMantissa.shiftRightOne, hlow, Nat.pow_succ 2 (k + 1), Nat.div_div_eq_div_mul]
    rcases Nat.mod_two_eq_zero_or_one (M / 2 ^ k) with hbit | hbit <;> simp [hbit]

theorem rounded_eq (q : Nat) (round sticky : Bool) :
    (⟨q, round, sticky⟩ : ExtendedMantissa).roundedMantissa =
      if round then if sticky then q + 1 else q + q % 2 else q := by
  cases round <;> cases sticky <;> rfl

theorem rounded_shift (M k : Nat) :
    ((⟨M, false, false⟩ : ExtendedMantissa) >>> k).roundedMantissa = roundDiv M (2 ^ k) := by
  cases k with
  | zero =>
    show M = roundDiv M 1
    simpa using (roundDiv_mul M Nat.one_pos).symm
  | succ k =>
    have hlow := mod_two_pow_succ M k
    have hrest : M % 2 ^ k < 2 ^ k := Nat.mod_lt M (Nat.two_pow_pos k)
    have hparity := Nat.mod_two_eq_zero_or_one (M / 2 ^ (k + 1))
    rw [shift_succ_eq, rounded_eq, roundDiv, hlow]
    rcases Nat.mod_two_eq_zero_or_one (M / 2 ^ k) with hbit | hbit
    · have hless : 2 * (M % 2 ^ k + 2 ^ k * 0) < 2 ^ (k + 1) := by omega
      rw [hbit, if_pos hless]
      rfl
    · have hmore : ¬ 2 * (M % 2 ^ k + 2 ^ k * 1) < 2 ^ (k + 1) := by omega
      rw [hbit, if_neg hmore]
      grind

end Vigil.Decimal

-- ---------------------------------------------------------------------------
-- Counts
-- ---------------------------------------------------------------------------

namespace Vigil.Count

open Decimal Float.Model.UnpackedFloat

variable {a b n : Nat}

def nearest (n : Nat) : Nat := roundDiv n (2 ^ (n.log2 - 52)) * 2 ^ (n.log2 - 52)

theorem nearest_small (hle : n.log2 ≤ 52) : nearest n = n := by
  have hone : roundDiv n 1 = n := by simpa using roundDiv_mul n Nat.one_pos
  rw [nearest, Nat.sub_eq_zero_of_le hle, Nat.pow_zero, hone, Nat.mul_one]

/-- Rounding does not leave the binade, but for its upper end. -/
theorem nearest_bounds (hn : n ≠ 0) : 2 ^ n.log2 ≤ nearest n ∧ nearest n ≤ 2 ^ (n.log2 + 1) := by
  obtain ⟨j, hj⟩ : ∃ j, n.log2 - 52 = j := ⟨_, rfl⟩
  obtain ⟨low, hlow⟩ : ∃ low, n.log2 = low + j := ⟨n.log2 - j, by omega⟩
  have hpow := Nat.two_pow_pos j
  have hleast : 2 ^ low * 2 ^ j ≤ n := by
    rw [← Nat.pow_add, ← hlow]
    exact Nat.log2_self_le hn
  have hmost : n ≤ 2 ^ (low + 1) * 2 ^ j := by
    rw [← Nat.pow_add, Nat.add_right_comm, ← hlow]
    exact Nat.le_of_lt Nat.lt_log2_self
  rw [nearest, hj, hlow, Nat.add_right_comm, Nat.pow_add, Nat.pow_add]
  constructor
  · refine Nat.mul_le_mul_right _ ?_
    calc 2 ^ low = roundDiv (2 ^ low * 2 ^ j) (2 ^ j) := (roundDiv_mul _ hpow).symm
      _ ≤ roundDiv n (2 ^ j) := roundDiv_mono hleast _
  · refine Nat.mul_le_mul_right _ ?_
    calc roundDiv n (2 ^ j) ≤ roundDiv (2 ^ (low + 1) * 2 ^ j) (2 ^ j) := roundDiv_mono hmost _
      _ = 2 ^ (low + 1) := roundDiv_mul _ hpow

theorem nearest_mono (hab : a ≤ b) : nearest a ≤ nearest b := by
  rcases Nat.eq_zero_or_pos a with rfl | ha
  · exact (nearest_small (by decide)).trans_le (Nat.zero_le _)
  rcases Nat.lt_or_eq_of_le (log2_mono ha hab) with hlt | heq
  · calc nearest a ≤ 2 ^ (a.log2 + 1) := (nearest_bounds (by omega)).2
      _ ≤ 2 ^ b.log2 := Nat.pow_le_pow_right Nat.two_pos hlt
      _ ≤ nearest b := (nearest_bounds (by omega)).1
  · rw [nearest, nearest, heq]
    exact Nat.mul_le_mul_right _ (roundDiv_mono hab _)

def mostBits : Nat := 1024

def ceiling : Nat := 2 ^ mostBits

theorem pow_le_ceiling {k : Nat} (hk : k ≤ 1024) : 2 ^ k ≤ ceiling := Nat.pow_le_pow_right Nat.two_pos hk

theorem ceiling_le_pow {k : Nat} (hk : 1024 ≤ k) : ceiling ≤ 2 ^ k := Nat.pow_le_pow_right Nat.two_pos hk

def value (n : Nat) : Value := if nearest n < ceiling then rational (nearest n) else ⊤

theorem value_mono (hab : a ≤ b) : value a ≤ value b := by
  have hnearest := nearest_mono hab
  unfold value
  by_cases hb : nearest b < ceiling
  · rw [if_pos (hnearest.trans_lt hb), if_pos hb]
    exact rational_le.mpr (Nat.cast_le.mpr hnearest)
  · rw [if_neg hb]
    exact le_top

theorem value_small (hle : n.log2 ≤ 52) : value n = rational n := by
  have hbits : n < 2 ^ (n.log2 + 1) := Nat.lt_log2_self
  have hlt : n < ceiling := hbits.trans_le (pow_le_ceiling (by omega))
  rw [value, nearest_small hle, if_pos hlt]

theorem dyadic_shift (m k : Nat) (e : Int) : dyadic (m <<< k) (e - k) = dyadic m e := by
  rw [dyadic, dyadic, Nat.shiftLeft_eq, zpow_sub₀ two_ne_zero, zpow_natCast]
  push_cast
  field_simp

theorem dyadic_nat (m k : Nat) : dyadic m k = (m <<< k : Nat) := by
  rw [dyadic, Nat.shiftLeft_eq, zpow_natCast]
  push_cast
  rfl

theorem nearest_large {m j : Nat} (hlog : 53 ≤ n.log2)
    (h : m <<< j = ((⟨n <<< 53, false, false⟩ : ExtendedMantissa) >>> (n.log2 + 1)).roundedMantissa) :
    nearest n = m <<< (n.log2 - 52 + j) := by
  have hscale : 2 ^ (n.log2 + 1) = 2 ^ (n.log2 - 52) * 2 ^ 53 := by
    rw [← Nat.pow_add]
    congr 1
    omega
  rw [rounded_shift, Nat.shiftLeft_eq n, hscale, roundDiv_mul_mul _ _ (Nat.two_pow_pos 53)] at h
  rw [nearest, ← h, Nat.add_comm, Nat.shiftLeft_add, ← Nat.shiftLeft_eq]

/-- A count becomes the double of its nearest, and counts that are too large become infinite. -/
theorem value?_ofNat (n : Nat) : value? (.ofNat n) = some (value n) := by
  rcases Nat.eq_zero_or_pos n with rfl | hn
  · have hzero : Parts.of (.ofNat 0) = .finite false 0 leastExponent := by decide +kernel
    rw [value?, hzero, value_small (by decide), Parts.value?, dyadic_zero, Nat.cast_zero]
  by_cases hle : n.log2 ≤ 52
  · have hexponent : (n.log2 : Int) - 52 = 0 - (52 - n.log2 : Nat) := by omega
    rw [value?_finite (ofNat_small hn hle), value_small hle, mantissa, hexponent, dyadic_shift, dyadic]
    simp
  obtain ⟨m, j, hm, hrounded, hunpack⟩ := unpack_large (Nat.lt_of_not_le hle)
  have hnearest := nearest_large (Nat.lt_of_not_le hle) hrounded
  obtain ⟨hleast, hmost⟩ := (Nat.log2_eq_iff (Nat.ne_of_gt (pos_of_log2 hm))).mp hm
  obtain ⟨e, he⟩ : ∃ e : Nat, n.log2 - 52 + j = e := ⟨_, rfl⟩
  have hexponent : (n.log2 : Int) - 52 + j = e := by omega
  rw [he] at hnearest
  by_cases hmax : e ≤ 971
  · rw [if_pos (by omega)] at hunpack
    have hlt : nearest n < ceiling := by
      calc nearest n = m * 2 ^ e := by rw [hnearest, Nat.shiftLeft_eq]
        _ < 2 ^ 53 * 2 ^ e := Nat.mul_lt_mul_of_pos_right hmost (Nat.two_pow_pos e)
        _ = 2 ^ (53 + e) := (Nat.pow_add 2 53 e).symm
        _ ≤ ceiling := pow_le_ceiling (by omega)
    rw [value?_finite hunpack, value, if_pos hlt, hexponent, dyadic_nat, hnearest]
  · rw [if_neg (by omega)] at hunpack
    have hge : ceiling ≤ nearest n := by
      calc ceiling ≤ 2 ^ (52 + e) := ceiling_le_pow (by omega)
        _ = 2 ^ 52 * 2 ^ e := Nat.pow_add 2 52 e
        _ ≤ m * 2 ^ e := Nat.mul_le_mul_right _ hleast
        _ = nearest n := by rw [hnearest, Nat.shiftLeft_eq]
    rw [value?_infinite hunpack, value, if_neg (not_lt.mpr hge)]

theorem value?_small (hle : n.log2 ≤ 52) : value? (.ofNat n) = some (rational n) := by
  rw [value?_ofNat, value_small hle]

variable {k : Nat}

/-- A count that is not rounded stays apart from all larger ones. -/
theorem value_lt (hle : k.log2 ≤ 52) (hkn : k < n) : rational k < value n := by
  by_cases hsmall : n.log2 ≤ 52
  · rw [value_small hsmall]
    exact rational_lt.mpr (Nat.cast_lt.mpr hkn)
  have hnearest : k < nearest n := by
    calc k < 2 ^ (k.log2 + 1) := Nat.lt_log2_self
      _ ≤ 2 ^ n.log2 := Nat.pow_le_pow_right Nat.two_pos (by omega)
      _ ≤ nearest n := (nearest_bounds (by omega)).1
  unfold value
  split
  · exact rational_lt.mpr (Nat.cast_lt.mpr hnearest)
  · exact rational_lt_top _

theorem value_le_iff (hle : k.log2 ≤ 52) : value n ≤ rational k ↔ n ≤ k := by
  constructor
  · intro h
    exact Nat.le_of_not_lt fun hover => absurd (value_lt hle hover) (not_lt.mpr h)
  · intro h
    exact value_small hle ▸ value_mono h

theorem le_value_iff (hle : k.log2 ≤ 52) : rational k ≤ value n ↔ k ≤ n := by
  constructor
  · intro h
    by_cases hsmall : n.log2 ≤ 52
    · rwa [value_small hsmall, rational_le, Nat.cast_le] at h
    · have hn : n ≠ 0 := by
        rintro rfl
        exact hsmall (by decide)
      exact Nat.le_of_not_lt fun hunder => hsmall ((log2_mono (Nat.pos_of_ne_zero hn) hunder.le).trans hle)
  · intro h
    exact value_small hle ▸ value_mono h

end Vigil.Count
