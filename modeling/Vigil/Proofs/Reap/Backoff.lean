import Mathlib.Algebra.Ring.Nat
import Vigil.Reap.Retry

/-!
# The pause between two attempts

The factor of a pause is cut off at sixty-four bits, and so is its product with the initial pause. `backoff_eq`: a
limit that fits into them hides both. `backoff_exact`: on machine words the pause is the initial one, doubled
without any bound and only then cut off at the limit; it grows with everything it depends on.
-/

namespace Vigil

variable {initial initial' consecutive consecutive' limit limit' : Nat}

theorem backoff_le_limit (initial consecutive limit : Nat) : backoff initial consecutive limit ≤ limit :=
  Nat.min_le_right _ _

theorem backoff_eq (initial consecutive : Nat) {limit : Nat} (h : limit < 2 ^ 64) :
    backoff initial consecutive limit = min (initial * 2 ^ consecutive) limit := by
  have htop : limit ≤ 2 ^ 64 - 1 := Nat.le_sub_one_of_lt h
  have hbackoff : backoff initial consecutive limit =
      min (initial * if consecutive < 64 then 2 ^ consecutive else 2 ^ 64 - 1) limit := by
    show min (min _ (2 ^ 64 - 1)) limit = _
    rw [Nat.min_assoc, Nat.min_eq_right htop]
    rfl
  rw [hbackoff]
  split
  · rfl
  · rename_i hlarge
    -- The factor is too small here, but unless it is multiplied by zero the limit is reached all the same.
    rcases Nat.eq_zero_or_pos initial with rfl | hpos
    · simp
    · have hsaturated : limit ≤ initial * (2 ^ 64 - 1) := Nat.le_trans htop (Nat.le_mul_of_pos_left _ hpos)
      have hexact : limit ≤ initial * 2 ^ consecutive := by
        calc limit ≤ 2 ^ 64 := Nat.le_of_lt h
          _ ≤ 2 ^ consecutive := Nat.pow_le_pow_right (by decide) (Nat.le_of_not_lt hlarge)
          _ ≤ initial * 2 ^ consecutive := Nat.le_mul_of_pos_left _ hpos
      rw [Nat.min_eq_right hsaturated, Nat.min_eq_right hexact]

theorem backoff_mono (hinitial : initial ≤ initial') (hconsecutive : consecutive ≤ consecutive')
    (hlimit : limit ≤ limit') (h : limit' < 2 ^ 64) :
    backoff initial consecutive limit ≤ backoff initial' consecutive' limit' := by
  have hdoubled : initial * 2 ^ consecutive ≤ initial' * 2 ^ consecutive' :=
    Nat.mul_le_mul hinitial (Nat.pow_le_pow_right (by decide) hconsecutive)
  rw [backoff_eq _ _ (Nat.lt_of_le_of_lt hlimit h), backoff_eq _ _ h]
  exact Nat.le_min.mpr
    ⟨Nat.le_trans (Nat.min_le_left _ _) hdoubled, Nat.le_trans (Nat.min_le_right _ _) hlimit⟩

/-- On machine words the pause is the exact product, cut off at the limit. So it never exceeds the limit, and a
longer initial pause, a later attempt or a higher limit never makes it shorter. -/
theorem backoff_exact (initial limit : UInt64) (consecutive : UInt32) :
    backoff initial.toNat consecutive.toNat limit.toNat =
        min (initial.toNat * 2 ^ consecutive.toNat) limit.toNat ∧
      backoff initial.toNat consecutive.toNat limit.toNat ≤ limit.toNat ∧
      ∀ (initial' limit' : UInt64) (consecutive' : UInt32),
        initial ≤ initial' → consecutive ≤ consecutive' → limit ≤ limit' →
        backoff initial.toNat consecutive.toNat limit.toNat ≤
          backoff initial'.toNat consecutive'.toNat limit'.toNat := by
  refine ⟨backoff_eq _ _ limit.toNat_lt, backoff_le_limit _ _ _, ?_⟩
  intro initial' limit' consecutive' hinitial hconsecutive hlimit
  exact backoff_mono (UInt64.le_iff_toNat_le.mp hinitial) (UInt32.le_iff_toNat_le.mp hconsecutive)
    (UInt64.le_iff_toNat_le.mp hlimit) limit'.toNat_lt

theorem backoff_exact_across_word :
    backoff 1 63 (2 ^ 64 - 1) = 2 ^ 63 ∧ backoff 1 64 (2 ^ 64 - 1) = 2 ^ 64 - 1 ∧
      backoff 0 64 (2 ^ 64 - 1) = 0 ∧ backoff 1 63 (2 ^ 64 - 1) ≤ backoff 1 64 (2 ^ 64 - 1) := by
  obtain ⟨hfits, -, hgrows⟩ := backoff_exact 1 0xFFFFFFFFFFFFFFFF 63
  have hcut := (backoff_exact 1 0xFFFFFFFFFFFFFFFF 64).1
  have hnone := (backoff_exact 0 0xFFFFFFFFFFFFFFFF 64).1
  exact ⟨hfits, hcut, hnone, hgrows 1 0xFFFFFFFFFFFFFFFF 64 (by decide) (by decide) (by decide)⟩

end Vigil
