import Lifecycle.Json.Numeral
import Lifecycle.Proofs.Decimal.Binary64

/-!
# Scaled significands

A significand of at most seventeen digits is scaled by a power of ten to a finite float
as long as the exact product does not exceed the middle of the two greatest floats
(`Numeral.isSome_scale?`).
-/

namespace Lifecycle.Json.Numeral

open Decimal

/-- Halfway between the two greatest floats. -/
def topMiddle : Nat := (2 ^ 53 - 1) * 2 ^ 971 - 2 ^ 970

/-- The float of ten to the 292nd, the power that takes a significand of full length to the end of
the range, is close enough to that power. -/
theorem exists_normal_power_292 : ∃ bound : Nat, 17976931348623157 * bound < rangeEnd ∧
    Normal bound (Float.ofScientific 1 false 292).toModel.unpack := by
  have hmodel : (Float.ofScientific 1 false 292).toModel =
      Float.Model.pack (.finite .positive 4512985939662074 918 (by decide)) := by decide +kernel
  have hrange : 4512985939662074 * 2 ^ 918 < 2 ^ 1024 := by decide +kernel
  refine ⟨4512985939662074 * 2 ^ 918, by decide +kernel, ?_⟩
  rw [hmodel]
  refine Normal.unpack_pack (.intro _ (by decide) (by decide) (by decide) ?_) ?_
  · rw [Nat.cast_mul, Nat.cast_pow, Nat.cast_ofNat, Nat.cast_ofNat]
    rfl
  · exact_mod_cast hrange

/-- A significand below the greatest one of full length is scaled to the end of the range, not past
it. -/
theorem isInf_mul_power_292 {n : UInt64} (hpos : 0 < n.toNat)
    (hless : n.toNat < 17976931348623157) :
    (n.toFloat * Float.ofScientific 1 false 292).isInf = false := by
  have hround : roundBound n.toNat ≤ (17976931348623157 : Nat) :=
    (roundBound_le_succ hpos (by omega)).trans (Nat.cast_le.mpr hless)
  obtain ⟨bound, hend, hbound⟩ := exists_normal_power_292
  refine isInf_mul (normal_toFloat hpos) hbound ?_
  have hendRat : ((17976931348623157 * bound : Nat) : ℚ) < rangeEnd := Nat.cast_lt.mpr hend
  rw [Nat.cast_mul] at hendRat
  exact lt_of_le_of_lt (mul_le_mul_of_nonneg_right hround (Nat.cast_nonneg _)) hendRat

/-- Scaling stays in the range as long as the exact product does not exceed the middle of the two
greatest floats. -/
theorem isSome_scale? {significand power : Nat} (hpos : 0 < significand)
    (hshort : significand ≤ 10 ^ 17) (hle : significand * 10 ^ power ≤ topMiddle) :
    (scale? significand power).isSome := by
  have hbelow : ∀ {most exponent : Nat}, topMiddle < (most + 1) * 10 ^ exponent →
      ∀ {count : Nat}, count * 10 ^ exponent ≤ topMiddle → count ≤ most := by
    intro most exponent hbeyond count hcount
    exact Nat.le_of_lt_succ (Nat.lt_of_mul_lt_mul_right (Nat.lt_of_le_of_lt hcount hbeyond))
  have hpower : power < 309 := by
    have hbeyond : topMiddle < 10 ^ 309 := by decide +kernel
    have hle' : 10 ^ power ≤ topMiddle := Nat.le_trans (Nat.le_mul_of_pos_left _ hpos) hle
    exact (pow_lt_pow_iff_right₀ (by decide : 1 < 10)).mp (Nat.lt_of_le_of_lt hle' hbeyond)
  have hword : significand.toUInt64.toNat = significand := Nat.mod_eq_of_lt (by omega)
  have hfinite :
      (significand.toUInt64.toFloat * Float.ofScientific 1 false power).isInf = false := by
    by_cases hfull : power = 292
    · subst hfull
      have hless : significand ≤ 17976931348623156 := hbelow (by decide +kernel) hle
      exact isInf_mul_power_292 (by omega) (by omega)
    have hbound : significand * 10 ^ power ≤ 1797693134862315 * 10 ^ 293 := by
      by_cases hsmall : power < 292
      · calc significand * 10 ^ power
            ≤ 10 ^ 17 * 10 ^ 291 :=
              Nat.mul_le_mul hshort (pow_le_pow_right₀ (by decide) (Nat.le_of_lt_succ hsmall))
          _ ≤ 1797693134862315 * 10 ^ 293 := by decide +kernel
      · obtain ⟨more, rfl⟩ : ∃ more, power = more + 293 := ⟨power - 293, by omega⟩
        rw [pow_add, ← Nat.mul_assoc] at hle ⊢
        exact Nat.mul_le_mul_right _ (hbelow (by decide +kernel) hle)
    have hfloat := normal_toFloat (n := significand.toUInt64) (by omega)
    rw [hword] at hfloat
    exact isInf_mul hfloat (normal_power (Nat.le_of_lt_succ hpower))
      (roundBound_mul_lt hpos (Nat.pow_pos (by decide)) hbound (by decide +kernel))
  rw [scale?, if_neg (by omega), if_neg (by omega)]
  simp only [Int.toNat_natCast, hfinite]
  rfl

end Lifecycle.Json.Numeral
