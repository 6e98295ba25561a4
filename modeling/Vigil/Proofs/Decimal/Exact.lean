import Mathlib.Algebra.Order.Field.Power
import Mathlib.Data.Rat.Floor
import Mathlib.Order.WithBot
import Vigil.Decimal.Binary
import Vigil.Proofs.Evidence.Counts

/-!
# Doubles by their values

`Decimal.value?` is the exact value of a double, as a rational number or as what lies beyond all of them.
`reads`: the parts it is read from are those that doubles are computed with. `lt_iff`, `le_iff` and `beq_iff`:
doubles compare as their values do, and what is not a number compares with nothing.
-/

namespace Vigil.Decimal

open Float.Model Float.Model.UnpackedFloat Vigil.Count

variable {m n : Nat} {e f : Int}

-- ---------------------------------------------------------------------------
-- Values
-- ---------------------------------------------------------------------------

abbrev Value := WithBot (WithTop ℚ)

def rational (q : ℚ) : Value := ((q : WithTop ℚ) : WithBot (WithTop ℚ))

@[simp] theorem rational_lt {a b : ℚ} : rational a < rational b ↔ a < b := by
  rw [rational, rational, WithBot.coe_lt_coe, WithTop.coe_lt_coe]

@[simp] theorem rational_inj {a b : ℚ} : rational a = rational b ↔ a = b := by
  rw [rational, rational, WithBot.coe_inj, WithTop.coe_inj]

@[simp] theorem rational_le {a b : ℚ} : rational a ≤ rational b ↔ a ≤ b := by
  rw [← not_lt, rational_lt, not_lt]

@[simp] theorem bot_lt_rational (q : ℚ) : ⊥ < rational q := WithBot.bot_lt_coe _

@[simp] theorem rational_lt_top (q : ℚ) : rational q < ⊤ := WithBot.coe_lt_coe.mpr (WithTop.coe_lt_top q)

def dyadic (m : Nat) (e : Int) : ℚ := m * 2 ^ e

def Parts.value? : Parts → Option Value
  | .nan => none
  | .infinite true => some ⊥
  | .infinite false => some ⊤
  | .finite true m e => some (rational (-dyadic m e))
  | .finite false m e => some (rational (dyadic m e))

def value? (x : Float) : Option Value := (Parts.of x).value?

-- ---------------------------------------------------------------------------
-- Canonical form
-- ---------------------------------------------------------------------------

/-- Significand and exponent as doubles have them: the leading bit is missing at the least exponent only. -/
structure Canonical (m : Nat) (e : Int) : Prop where
  fits : m < 2 * hiddenBit
  least : leastExponent ≤ e
  full : leastExponent < e → hiddenBit ≤ m

theorem dyadic_pos (hm : 0 < m) : 0 < dyadic m e :=
  mul_pos (Nat.cast_pos.mpr hm) (zpow_pos two_pos e)

theorem dyadic_zero : dyadic 0 e = 0 := by simp [dyadic]

theorem Canonical.dyadic_lt (hm : Canonical m e) (hn : Canonical n f) (hef : e < f) :
    dyadic m e < dyadic n f := by
  have hfull : hiddenBit ≤ n := hn.full (lt_of_le_of_lt hm.least hef)
  have hmn : (m : ℚ) < n * 2 := by
    have hfits := hm.fits
    exact_mod_cast (by omega : m < n * 2)
  calc dyadic m e < n * 2 * 2 ^ e := mul_lt_mul_of_pos_right hmn (zpow_pos two_pos e)
    _ = n * 2 ^ (e + 1) := by rw [zpow_add_one₀ two_ne_zero]; ring
    _ ≤ dyadic n f := by
      have hpow : (2 : ℚ) ^ (e + 1) ≤ 2 ^ f := zpow_le_zpow_right₀ one_le_two hef
      exact mul_le_mul_of_nonneg_left hpow (Nat.cast_nonneg n)

theorem dyadic_lt_iff : dyadic m e < dyadic n e ↔ m < n := by
  rw [dyadic, dyadic, mul_lt_mul_iff_left₀ (zpow_pos two_pos e), Nat.cast_lt]

/-- Exponents decide first, then significands. -/
theorem Canonical.compares (hm : Canonical m e) (hn : Canonical n f) :
    ((compare e f).then (compare m n)).Compares (dyadic m e) (dyadic n f) := by
  rcases lt_trichotomy e f with hef | rfl | hef
  · rw [compare_lt_iff_lt.mpr hef]
    exact hm.dyadic_lt hn hef
  · rw [compare_eq_iff_eq.mpr rfl, Ordering.eq_then]
    rcases lt_trichotomy m n with hmn | rfl | hmn
    · rw [compare_lt_iff_lt.mpr hmn]
      exact dyadic_lt_iff.mpr hmn
    · rw [compare_eq_iff_eq.mpr rfl]
      exact rfl
    · rw [compare_gt_iff_gt.mpr hmn]
      exact dyadic_lt_iff.mpr hmn
  · rw [compare_gt_iff_gt.mpr hef]
    exact hn.dyadic_lt hm hef

-- ---------------------------------------------------------------------------
-- Reading the bits
-- ---------------------------------------------------------------------------

theorem unpackMantissa_toNat (v : BitVec Format.binary64.numBits) :
    (unpackMantissa v).toNat = v.toNat % hiddenBit := by
  simp [unpackMantissa, hiddenBit]

theorem unpackExponent_toNat (v : BitVec Format.binary64.numBits) :
    (unpackExponent v).toNat = v.toNat / hiddenBit % 2048 := by
  simp [unpackExponent, hiddenBit, Nat.shiftRight_eq_div_pow]

theorem unpackSign_toNat (v : BitVec Format.binary64.numBits) :
    (unpackSign v).toNat = v.toNat / Nat.pow 2 63 % 2 := by
  unfold unpackSign
  simp [Nat.shiftRight_eq_div_pow]

def isNegative : Sign → Bool
  | .negative => true
  | .positive => false

inductive Reads : UnpackedFloat → Parts → Prop
  | nan : Reads .notANumber .nan
  | infinite (s : Sign) : Reads (.infinity s) (.infinite (isNegative s))
  | zero (s : Sign) : Reads (.zero s) (.finite (isNegative s) 0 leastExponent)
  | finite (s : Sign) {m : Nat} {e : Int} (hm : 0 < m) (h : Canonical m e) :
      Reads (.finite s m e hm) (.finite (isNegative s) m e)

theorem isNegative_unpackSign (v : BitVec Format.binary64.numBits) :
    isNegative (Sign.ofBitVec (unpackSign v)) = (v.toNat / Nat.pow 2 63 % 2 == 1) := by
  rw [← unpackSign_toNat]
  generalize unpackSign v = b
  revert b
  decide

theorem unpackMantissa_lt (v : BitVec Format.binary64.numBits) : (unpackMantissa v).toNat < hiddenBit :=
  (unpackMantissa v).isLt

theorem Canonical.subnormal (hm : m < hiddenBit) : Canonical m leastExponent where
  fits := by omega
  least := le_refl _
  full h := absurd h (lt_irrefl _)

theorem Canonical.normal {b : Nat} (hm : m < hiddenBit) :
    Canonical (hiddenBit + m) (leastExponent + (b - 1 : Nat)) where
  fits := by omega
  least := by omega
  full _ := Nat.le_add_right _ _

theorem biased_normal {b : Nat} (hb : 0 < b) : (b : Int) - 1075 = leastExponent + (b - 1 : Nat) := by
  show (b : Int) - 1075 = -1074 + (b - 1 : Nat)
  omega

theorem reads_finite {s : Sign} (hm : 0 < m) (h : Canonical n f) (hmantissa : m = n) (hexponent : e = f) :
    Reads (.finite s m e hm) (.finite (isNegative s) n f) := by
  subst hmantissa hexponent
  exact .finite s hm h

/-- The bits are taken apart just as they are for computing. -/
theorem reads_bits (v : BitVec Format.binary64.numBits) :
    Reads (UnpackedFloat.unpack Format.binary64 v) (.ofBits v.toNat) := by
  have hmax : unpackExponent v = -1#_ ↔ (unpackExponent v).toNat = 2047 := BitVec.toNat_inj.symm
  have hmin : unpackExponent v = 0#_ ↔ (unpackExponent v).toNat = 0 := BitVec.toNat_inj.symm
  have hnone : unpackMantissa v = 0#_ ↔ (unpackMantissa v).toNat = 0 := BitVec.toNat_inj.symm
  rw [Parts.ofBits, ← isNegative_unpackSign, ← unpackExponent_toNat, ← unpackMantissa_toNat]
  by_cases hspecial : unpackExponent v = -1#_
  · unfold UnpackedFloat.unpack
    rw [if_pos hspecial, if_pos (hmax.mp hspecial)]
    by_cases hzero : unpackMantissa v = 0#_
    · rw [if_pos hzero, if_pos (hnone.mp hzero)]
      exact .infinite _
    · rw [if_neg hzero, if_neg (mt hnone.mpr hzero)]
      exact .nan
  rw [if_neg (mt hmax.mpr hspecial)]
  by_cases hsmall : unpackExponent v = 0#_
  · unfold UnpackedFloat.unpack
    rw [if_neg hspecial, if_pos hsmall, if_pos (hmin.mp hsmall)]
    by_cases hzero : unpackMantissa v = 0#_
    · rw [dif_pos hzero, hnone.mp hzero]
      exact .zero _
    · rw [dif_neg hzero]
      refine reads_finite _ (.subnormal (unpackMantissa_lt v)) rfl ?_
      rw [hmin.mp hsmall]
      rfl
  · have hbiased := Nat.pos_of_ne_zero (mt hmin.mpr hsmall)
    rw [if_neg (mt hmin.mpr hsmall), unpack_normal hsmall hspecial]
    exact reads_finite _ (.normal (unpackMantissa_lt v)) (append_implicit _) (biased_normal hbiased)

theorem reads (x : Float) : Reads x.toModel.unpack (.of x) := reads_bits x.toBits.toBitVec

-- ---------------------------------------------------------------------------
-- Comparing
-- ---------------------------------------------------------------------------

variable {u v : UnpackedFloat} {p q : Parts} {a b : Value} {x y : Float}

theorem compares_rational {o : Ordering} {a b : ℚ} (h : o.Compares a b) :
    o.Compares (rational a) (rational b) := by
  cases o <;> simpa [Ordering.Compares] using h

theorem compares_neg {o : Ordering} {a b : ℚ} (h : o.Compares a b) : o.swap.Compares (-a) (-b) := by
  cases o <;> simpa [Ordering.Compares] using h

theorem Reads.compares (hu : Reads u p) (hv : Reads v q) (ha : p.value? = some a) (hb : q.value? = some b) :
    ∃ o, u.compare v = some o ∧ o.Compares a b := by
  cases hu with
  | nan => cases ha
  | infinite s =>
    cases hv with
    | nan => cases hb
    | infinite t =>
      cases s <;> cases t <;> cases ha <;> cases hb <;>
        first | exact ⟨.eq, rfl, rfl⟩ | exact ⟨_, rfl, bot_lt_top⟩
    | zero t | finite t =>
      cases s <;> cases t <;> cases ha <;> cases hb <;> exact ⟨_, rfl, by simp [Ordering.Compares]⟩
  | zero s =>
    cases hv with
    | nan => cases hb
    | infinite t | zero t =>
      cases s <;> cases t <;> cases ha <;> cases hb <;>
        exact ⟨_, rfl, by simp [dyadic_zero, Ordering.Compares]⟩
    | finite t hn =>
      cases s <;> cases t <;> cases ha <;> cases hb <;>
        exact ⟨_, rfl, by simp [dyadic_pos hn, dyadic_zero, Ordering.Compares]⟩
  | finite s hm hme =>
    cases hv with
    | nan => cases hb
    | infinite t | zero t =>
      cases s <;> cases t <;> cases ha <;> cases hb <;>
        exact ⟨_, rfl, by simp [dyadic_pos hm, dyadic_zero, Ordering.Compares]⟩
    | finite t hn hnf =>
      cases s <;> cases t <;> cases ha <;> cases hb
      · exact ⟨_, rfl, compares_rational (compares_neg (hme.compares hnf))⟩
      · exact ⟨_, rfl, rational_lt.mpr ((neg_lt_zero.mpr (dyadic_pos hm)).trans (dyadic_pos hn))⟩
      · exact ⟨_, rfl, rational_lt.mpr ((neg_lt_zero.mpr (dyadic_pos hn)).trans (dyadic_pos hm))⟩
      · exact ⟨_, rfl, compares_rational (hme.compares hnf)⟩

theorem Reads.isNaN_iff (hu : Reads u p) : u.isNaN ↔ p.value? = none := by
  cases hu with
  | nan => exact iff_of_true rfl rfl
  | infinite s | zero s | finite s =>
    refine iff_of_false Bool.false_ne_true ?_
    cases s <;> exact Option.some_ne_none _

theorem isNaN_iff : x.isNaN ↔ value? x = none := (reads x).isNaN_iff

theorem compare_nan_left (hu : u.isNaN) : u.compare v = none := by
  cases u with
  | notANumber => rfl
  | _ => cases hu

theorem compare_nan_right (hv : v.isNaN) : u.compare v = none := by
  cases v with
  | notANumber => cases u <;> rfl
  | _ => cases hv

/-- A comparison tells of the values; without a value there is none. -/
theorem compare_iff {P : Ordering → Prop} {R : Value → Value → Prop}
    (h : ∀ o a b, o.Compares a b → (P o ↔ R a b)) :
    (∃ o ∈ x.toModel.unpack.compare y.toModel.unpack, P o) ↔ ∃ a ∈ value? x, ∃ b ∈ value? y, R a b := by
  cases ha : value? x with
  | none => simp [compare_nan_left (isNaN_iff.mpr ha)]
  | some a =>
    cases hb : value? y with
    | none => simp [compare_nan_right (isNaN_iff.mpr hb)]
    | some b =>
      obtain ⟨o, hcompare, hab⟩ := (reads x).compares (reads y) ha hb
      simpa [hcompare] using h o a b hab

theorem lt_iff : x < y ↔ ∃ a ∈ value? x, ∃ b ∈ value? y, a < b := by
  have hmodel : x < y ↔ UnpackedFloat.lt x.toModel.unpack y.toModel.unpack := decide_eq_true_iff
  rw [hmodel, UnpackedFloat.lt, beq_iff_eq, ← compare_iff fun o a b h => h.eq_lt]
  simp

theorem le_iff : x ≤ y ↔ ∃ a ∈ value? x, ∃ b ∈ value? y, a ≤ b := by
  have hmodel : x ≤ y ↔ UnpackedFloat.le x.toModel.unpack y.toModel.unpack := decide_eq_true_iff
  have hle (o : Ordering) (a b : Value) (h : o.Compares a b) : o.isLE ↔ a ≤ b := by
    rw [Ordering.isLE_iff_ne_gt]
    exact h.ne_gt
  rw [hmodel, UnpackedFloat.le, ← compare_iff hle, Option.any_eq_true]
  rfl

theorem beq_iff : (x == y) ↔ ∃ a ∈ value? x, a ∈ value? y := by
  have hmodel : (x == y) ↔ UnpackedFloat.beq x.toModel.unpack y.toModel.unpack := Iff.rfl
  have heq := compare_iff (x := x) (y := y) fun o a b h => h.eq_eq
  rw [hmodel]
  unfold UnpackedFloat.beq
  simpa using heq

theorem Reads.infinite_eq {s : Sign} (h : Reads (.infinity s) p) : p = .infinite (isNegative s) := by
  cases h
  rfl

theorem Reads.finite_eq {s : Sign} {hm : 0 < m} (h : Reads (.finite s m e hm) p) :
    p = .finite (isNegative s) m e := by
  cases h
  rfl

theorem value?_infinite (h : x.toModel.unpack = .infinity .positive) : value? x = some ⊤ := by
  have hreads := reads x
  rw [h] at hreads
  rw [value?, hreads.infinite_eq]
  rfl

theorem value?_finite {hm : 0 < m} (h : x.toModel.unpack = .finite .positive m e hm) :
    value? x = some (rational (dyadic m e)) := by
  have hreads := reads x
  rw [h] at hreads
  rw [value?, hreads.finite_eq]
  rfl

end Vigil.Decimal
