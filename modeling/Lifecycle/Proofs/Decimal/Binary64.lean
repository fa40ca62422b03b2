import Mathlib.Algebra.Order.Field.Power
import Mathlib.Data.Rat.Cast.Order
import Mathlib.Tactic.FieldSimp
import Mathlib.Tactic.Linarith
import Mathlib.Tactic.Ring

/-!
# Rounding to binary64

Rounding raises a magnitude by at most half a unit in its last place
(`Normal.roundWithAccuracy`). So a product is finite as long as its exact factors stay
below the end of the range by a little more than that (`isInf_mul`).
-/

namespace Lifecycle.Decimal

open Float.Model Float.Model.UnpackedFloat

/-- A finite number from one up, in normal form, whose magnitude does not exceed a bound. -/
inductive Normal (bound : ℚ) : UnpackedFloat → Prop where
  /-- A full mantissa. -/
  | intro {sign : Sign} {m : Nat} {e : Int} (hpos : 0 < m) (low : 2 ^ 52 ≤ m) (high : m < 2 ^ 53)
    (one : -52 ≤ e) (le : (m : ℚ) * 2 ^ e ≤ bound) : Normal bound (.finite sign m e hpos)

theorem mantissa_shift (em : ExtendedMantissa) (n : Nat) :
    (em >>> n).mantissa = em.mantissa / 2 ^ n := by
  induction n with
  | zero => simp [HShiftRight.hShiftRight, Nat.repeat]
  | succ n ih =>
    have hstep : (em >>> (n + 1)).mantissa = (em >>> n).mantissa / 2 := rfl
    rw [hstep, ih, Nat.div_div_eq_div_mul, ← Nat.pow_succ]

/-- A mantissa and its round bit do not exceed what was shifted. -/
theorem shift_le (em : ExtendedMantissa) (n : Nat) :
    (2 * (em >>> n).mantissa + (em >>> n).roundBit.toNat) * 2 ^ n ≤
      2 * em.mantissa + em.roundBit.toNat := by
  induction n with
  | zero => simp [HShiftRight.hShiftRight, Nat.repeat]
  | succ n ih =>
    have hmantissa : (em >>> (n + 1)).mantissa = (em >>> n).mantissa / 2 := rfl
    have hbit : (em >>> (n + 1)).roundBit = ((em >>> n).mantissa % 2 != 0) := rfl
    have hhalf : 2 * (em >>> (n + 1)).mantissa + (em >>> (n + 1)).roundBit.toNat =
        (em >>> n).mantissa := by
      rw [hmantissa, hbit]
      rcases Nat.mod_two_eq_zero_or_one (em >>> n).mantissa with h | h <;> simp [h] <;> omega
    rw [hhalf, Nat.pow_succ]
    nlinarith [Nat.zero_le ((em >>> n).roundBit.toNat * 2 ^ n)]

/-- Rounding goes to one of the two neighbours, and up only from the middle on. -/
theorem roundedMantissa_bounds (em : ExtendedMantissa) :
    em.mantissa ≤ em.roundedMantissa ∧ em.roundedMantissa ≤ em.mantissa + 1 ∧
      2 * em.roundedMantissa ≤ 2 * em.mantissa + em.roundBit.toNat + 1 := by
  obtain ⟨m, roundBit, stickyBit⟩ := em
  cases roundBit <;> cases stickyBit <;>
    simp [ExtendedMantissa.roundedMantissa, ExtendedMantissa.accuracy,
      Accuracy.roundToNearestEven] <;>
    omega

/-- The exponent with which a mantissa has full width, unless the number is below the normal
ones. -/
theorem targetExponent_binary64 (total : Int) :
    Format.binary64.targetExponent total = max (total - 53) (-1074) := rfl

/-- A mantissa of full width is shifted until it has just that width. -/
theorem shiftToTargetExponent_eq {m : Nat} {e : Int} (hm : 2 ^ 52 ≤ m) (he : 0 ≤ m.log2 + e) :
    shiftToTargetExponent Format.binary64 m e .exact =
      ((⟨m, false, false⟩ : ExtendedMantissa) >>> (m.log2 - 52), m.log2 + e - 52) := by
  have hlog : 52 ≤ m.log2 := (Nat.le_log2 (by omega)).mpr hm
  have htarget : Format.binary64.targetExponent (totalExponent m e) = m.log2 + e - 52 := by
    rw [targetExponent_binary64, totalExponent]
    omega
  have hamount : (m.log2 + e - 52 - e).toNat = m.log2 - 52 := by omega
  rw [shiftToTargetExponent, htarget, shiftToExponent, hamount]
  refine Prod.ext rfl ?_
  simp only
  omega

/-- The mantissa that is left has full width. -/
theorem div_pow_bounds {m : Nat} (hm : 2 ^ 52 ≤ m) :
    2 ^ 52 ≤ m / 2 ^ (m.log2 - 52) ∧ m / 2 ^ (m.log2 - 52) < 2 ^ 53 := by
  have hlog : 52 ≤ m.log2 := (Nat.le_log2 (by omega)).mpr hm
  have hpos : 0 < 2 ^ (m.log2 - 52) := Nat.two_pow_pos _
  constructor
  · rw [Nat.le_div_iff_mul_le hpos, ← Nat.pow_add, Nat.add_sub_cancel' hlog]
    exact Nat.log2_self_le (by omega)
  · rw [Nat.div_lt_iff_lt_mul hpos, ← Nat.pow_add]
    calc m < 2 ^ (m.log2 + 1) := Nat.lt_log2_self
      _ = 2 ^ (53 + (m.log2 - 52)) := by congr 1; omega

/-- Rounding shifts, rounds and shifts once more. -/
theorem roundWithAccuracy_eq {spec : Format} {sign : Sign} {m : Nat} {e : Int}
    {accuracy : Accuracy} {first second : ExtendedMantissa × Int}
    (hfirst : shiftToTargetExponent spec m e accuracy = first)
    (hsecond : shiftToTargetExponent spec first.1.roundedMantissa first.2 .exact = second)
    (hpos : 0 < second.1.mantissa) :
    roundWithAccuracy spec sign m e accuracy =
      .finite sign second.1.mantissa second.2 hpos := by
  subst hfirst hsecond
  exact dif_neg (Nat.ne_of_gt hpos)

/-- Rounding a mantissa of full width raises the magnitude by at most half a unit in the last
place. -/
theorem normal_roundWithAccuracy (sign : Sign) {m : Nat} {e : Int} (hm : 2 ^ 52 ≤ m)
    (he : 0 ≤ m.log2 + e) :
    Normal ((m : ℚ) * 2 ^ e + 2 ^ (m.log2 + e - 53))
      (roundWithAccuracy Format.binary64 sign m e .exact) := by
  have hlog : 52 ≤ m.log2 := (Nat.le_log2 (by omega)).mpr hm
  have hfirst := shiftToTargetExponent_eq hm he
  have hfull := (div_pow_bounds hm).1
  set shift := m.log2 - 52 with hshift
  set em : ExtendedMantissa := (⟨m, false, false⟩ : ExtendedMantissa) >>> shift
  set r := em.roundedMantissa with hr
  -- the first shift leaves a full mantissa, which rounding may raise to the next power of two
  obtain ⟨hlow, _, hhalf⟩ := roundedMantissa_bounds em
  have hmantissa : em.mantissa = m / 2 ^ shift := mantissa_shift _ _
  have hrfull : 2 ^ 52 ≤ r := by omega
  have hrlog : 52 ≤ r.log2 := (Nat.le_log2 (by omega)).mpr hrfull
  have hraise : r * 2 ^ shift ≤ (m : ℚ) + 2 ^ shift / 2 := by
    have hbit : (2 * em.mantissa + em.roundBit.toNat) * 2 ^ shift ≤ 2 * m :=
      shift_le ⟨m, false, false⟩ shift
    have hnat : 2 * r * 2 ^ shift ≤ 2 * m + 2 ^ shift := by
      nlinarith [Nat.mul_le_mul_right (2 ^ shift) hhalf]
    have hcast : (2 : ℚ) * r * 2 ^ shift ≤ 2 * m + 2 ^ shift := by exact_mod_cast hnat
    linarith
  -- the second shift drops the zero that is left over in that case
  have hsecond := shiftToTargetExponent_eq hrfull (e := m.log2 + e - 52) (by omega)
  set last : ExtendedMantissa := (⟨r, false, false⟩ : ExtendedMantissa) >>> (r.log2 - 52)
  have hlast : last.mantissa = r / 2 ^ (r.log2 - 52) := mantissa_shift _ _
  obtain ⟨hlastLow, hlastHigh⟩ := div_pow_bounds hrfull
  have hdrop : (last.mantissa : ℚ) * 2 ^ (r.log2 - 52) ≤ r := by
    exact_mod_cast hlast ▸ Nat.div_mul_le_self _ _
  have hpos : 0 < last.mantissa := by omega
  rw [roundWithAccuracy_eq hfirst hsecond hpos]
  refine .intro _ (by simp only; omega) (by simp only; omega) (by simp only; omega) ?_
  have hexponent : (2 : ℚ) ^ (r.log2 + (m.log2 + e - 52) - 52) =
      2 ^ (r.log2 - 52) * (2 ^ shift * 2 ^ e) := by
    rw [← zpow_natCast, ← zpow_natCast, ← zpow_add₀ two_ne_zero, ← zpow_add₀ two_ne_zero]
    congr 1
    omega
  have hhalfUnit : (2 : ℚ) ^ (m.log2 + e - 53) = 2 ^ shift / 2 * 2 ^ e := by
    have hsplit : (m.log2 : Int) + e - 53 = shift + (-1) + e := by omega
    rw [hsplit, zpow_add₀ two_ne_zero, zpow_add₀ two_ne_zero, zpow_natCast, zpow_neg_one]
    ring
  calc (last.mantissa : ℚ) * 2 ^ (r.log2 + (m.log2 + e - 52) - 52)
      = last.mantissa * 2 ^ (r.log2 - 52) * (2 ^ shift * 2 ^ e) := by rw [hexponent]; ring
    _ ≤ r * (2 ^ shift * 2 ^ e) := by gcongr
    _ = r * 2 ^ shift * 2 ^ e := by ring
    _ ≤ (m + 2 ^ shift / 2) * 2 ^ e := by gcongr
    _ = m * 2 ^ e + 2 ^ (m.log2 + e - 53) := by rw [hhalfUnit]; ring

theorem log2_mul_two_pow {n : Nat} (hn : 0 < n) (k : Nat) : (n * 2 ^ k).log2 = n.log2 + k := by
  induction k with
  | zero => rw [Nat.pow_zero, Nat.mul_one, Nat.add_zero]
  | succ k ih =>
    have hne : n * 2 ^ k ≠ 0 := (Nat.mul_pos hn (Nat.two_pow_pos k)).ne'
    rw [Nat.pow_succ, ← Nat.mul_assoc, Nat.mul_comm _ 2, Nat.log2_two_mul hne, ih, Nat.add_assoc]

/-- A natural number and half a unit in the last place that it has as a float. -/
def roundBound (n : Nat) : ℚ := n + 2 ^ ((n.log2 : Int) - 53)

/-- Rounding a natural number raises it by at most half a unit in the last place. -/
theorem normal_scaled {sign : Sign} {n k : Nat} (hn : 0 < n) (hfull : 2 ^ 52 ≤ n * 2 ^ k) :
    Normal (roundBound n) (roundWithAccuracy Format.binary64 sign (n * 2 ^ k) (-k) .exact) := by
  have hlog := log2_mul_two_pow hn k
  have hround := normal_roundWithAccuracy sign (e := -k) hfull (by omega)
  have hbound : ((n * 2 ^ k : Nat) : ℚ) * 2 ^ (-(k : Int)) +
      2 ^ (((n * 2 ^ k).log2 : Int) + -k - 53) = roundBound n := by
    have hexponent : ((n * 2 ^ k).log2 : Int) + -k - 53 = n.log2 - 53 := by omega
    rw [hexponent, roundBound, Nat.cast_mul, Nat.cast_pow, Nat.cast_ofNat, mul_assoc, zpow_neg,
      zpow_natCast, mul_inv_cancel₀ (by positivity), mul_one]
  rwa [hbound] at hround

/-- Rounding a natural number first gives it a full mantissa. -/
theorem normal_round {sign : Sign} {n : Nat} (hn : 0 < n) :
    Normal (roundBound n) (UnpackedFloat.round Format.binary64 sign n 0) := by
  have htarget : Format.binary64.targetExponent (totalExponent n 0) = n.log2 - 52 := by
    rw [targetExponent_binary64, totalExponent]
    omega
  have hamount : (0 - ((n.log2 : Int) - 52)).toNat = 52 - n.log2 := by omega
  have hfull : 2 ^ 52 ≤ n * 2 ^ (52 - n.log2) := by
    have hpos : 0 < n * 2 ^ (52 - n.log2) := Nat.mul_pos hn (Nat.two_pow_pos _)
    exact (Nat.le_log2 hpos.ne').mp (by rw [log2_mul_two_pow hn]; omega)
  rw [UnpackedFloat.round, htarget, decreaseExponent, hamount, Nat.shiftLeft_eq, Int.zero_sub]
  exact normal_scaled hn hfull

/-- A power of ten is rounded like any other natural number. -/
theorem normal_ofScientific {e : Nat} (he : e ≤ 308) :
    Normal (roundBound (10 ^ e)) (UnpackedFloat.ofScientific Format.binary64 1 e) := by
  have hpos : 0 < 10 ^ e := Nat.pow_pos (by decide)
  have hhigh : ¬(e : Int) > 2 ^ Format.binary64.exponentBits := by
    simp only
    omega
  have hlow : ¬(e : Int) < -((2 ^ Format.binary64.exponentBits : Int) + Nat.log2 1) := by
    simp only
    omega
  have hmantissa : 1 <<< Format.binary64.mantissaBits * 10 ^ e = 10 ^ e * 2 ^ 53 := by
    rw [Nat.mul_comm]
    rfl
  have hproduct : UnpackedFloat.ofScientific Format.binary64 1 e =
      roundWithAccuracy Format.binary64 .positive (10 ^ e * 2 ^ 53) (-(53 : Nat)) .exact := by
    rw [UnpackedFloat.ofScientific, dif_neg (by decide), if_neg hhigh, if_neg hlow,
      if_pos (by omega), ← hmantissa]
    rfl
  rw [hproduct]
  exact normal_scaled hpos (Nat.le_trans (by decide) (Nat.mul_le_mul_right (2 ^ 53) hpos))

/-- Half a unit above the greatest number; from here on, rounding goes past the end of the range. -/
def rangeEnd : Nat := (2 ^ 54 - 1) * 2 ^ 970

theorem rangeEnd_add : (rangeEnd : ℚ) + 2 ^ 970 = 2 ^ 1024 := by
  rw [rangeEnd, Nat.cast_mul, Nat.cast_pow, Nat.cast_ofNat, Nat.cast_sub (by decide), Nat.cast_pow,
    Nat.cast_ofNat, Nat.cast_one, sub_mul, one_mul, sub_add_cancel, ← pow_add]

/-- Half a unit in the last place takes a magnitude only past the end of the range when it is
already half a unit away from it. -/
theorem add_half_lt {m : Nat} {e : Int} (hm : 0 < m)
    (h : (m : ℚ) * 2 ^ e < rangeEnd) :
    (m : ℚ) * 2 ^ e + 2 ^ (m.log2 + e - 53) < 2 ^ 1024 := by
  have hlead : (2 : ℚ) ^ (m.log2 + e) ≤ m * 2 ^ e := by
    rw [zpow_add₀ two_ne_zero, zpow_natCast]
    gcongr
    exact_mod_cast Nat.log2_self_le hm.ne'
  have hlog : (m.log2 : Int) + e < 1024 := by
    rw [← zpow_lt_zpow_iff_right₀ (one_lt_two : (1 : ℚ) < 2)]
    calc (2 : ℚ) ^ (m.log2 + e) ≤ m * 2 ^ e := hlead
      _ < rangeEnd := h
      _ < rangeEnd + 2 ^ 970 := lt_add_of_pos_right _ (by positivity)
      _ = 2 ^ (1024 : Int) := rangeEnd_add.trans (zpow_natCast 2 1024).symm
  have hhalf : (2 : ℚ) ^ (m.log2 + e - 53) ≤ 2 ^ 970 := by
    rw [← zpow_natCast]
    exact zpow_le_zpow_right₀ one_le_two (by omega)
  calc (m : ℚ) * 2 ^ e + 2 ^ (m.log2 + e - 53)
      < rangeEnd + 2 ^ 970 := add_lt_add_of_lt_of_le h hhalf
    _ = 2 ^ 1024 := rangeEnd_add

/-- The product of two numbers stays in the range when that of their bounds is half a unit away
from its end. -/
theorem Normal.mul {x y : ℚ} {u v : UnpackedFloat} (hu : Normal x u) (hv : Normal y v)
    (hxy : x * y < rangeEnd) :
    ∃ z < 2 ^ 1024, Normal z (UnpackedFloat.mul Format.binary64 u v) := by
  obtain @⟨_, m, e, hpos, low, _, one, le⟩ := hu
  obtain @⟨_, m', e', hpos', low', _, one', le'⟩ := hv
  have hprod : ((m * m' : Nat) : ℚ) * 2 ^ (e + e') ≤ x * y := by
    have hsplit : ((m * m' : Nat) : ℚ) * 2 ^ (e + e') = m * 2 ^ e * (m' * 2 ^ e') := by
      rw [zpow_add₀ two_ne_zero, Nat.cast_mul]
      ring
    have hx : 0 ≤ x := le_trans (by positivity) le
    rw [hsplit]
    gcongr
  have hlog : 104 ≤ (m * m').log2 :=
    (Nat.le_log2 (Nat.mul_pos hpos hpos').ne').mpr
      (Nat.le_trans (by decide) (Nat.mul_le_mul low low'))
  have hfull : 2 ^ 52 ≤ m * m' := Nat.le_trans low (Nat.le_mul_of_pos_right m hpos')
  exact ⟨_, add_half_lt (Nat.mul_pos hpos hpos') (lt_of_le_of_lt hprod hxy),
    normal_roundWithAccuracy _ hfull (by omega)⟩

/-- A full mantissa within the range has an exponent that fits into its field. -/
theorem exponent_lt {x : ℚ} {m : Nat} {e : Int} (low : 2 ^ 52 ≤ m) (le : (m : ℚ) * 2 ^ e ≤ x)
    (hx : x < 2 ^ 1024) : e < 972 := by
  have hlead : (2 : ℚ) ^ (52 + e) ≤ m * 2 ^ e := by
    rw [zpow_add₀ two_ne_zero]
    gcongr
    exact_mod_cast low
  have hlt : (2 : ℚ) ^ (52 + e) < 2 ^ (1024 : Int) :=
    lt_of_le_of_lt (hlead.trans le) (hx.trans_eq (zpow_natCast 2 1024).symm)
  rw [zpow_lt_zpow_iff_right₀ one_lt_two] at hlt
  omega

/-- The leading bit of a full mantissa is left out of its field. -/
theorem toNat_mantissa {m : Nat} (low : 2 ^ 52 ≤ m) (high : m < 2 ^ 53) :
    (1#1 ++ BitVec.ofNat 52 m).toNat = m := by
  rw [BitVec.toNat_append, ← Nat.shiftLeft_add_eq_or_of_lt (BitVec.ofNat 52 m).isLt,
    Nat.shiftLeft_eq, BitVec.toNat_ofNat, BitVec.toNat_ofNat]
  omega

/-- Bits whose exponent field is neither the last nor the first one are those of a number with a
full mantissa. -/
theorem Normal.unpack {x : ℚ} {bits : BitVec Format.binary64.numBits} {m : Nat} {e : Int}
    (hordinary : unpackExponent bits ≠ -1#11) (hnonzero : unpackExponent bits ≠ 0#11)
    (hm : (1#1 ++ unpackMantissa bits).toNat = m)
    (he : ((unpackExponent bits).toNat : Int) - ((Format.binary64.exponentBias : Int) +
      Format.binary64.mantissaBitsWithoutImplicit) = e)
    (low : 2 ^ 52 ≤ m) (high : m < 2 ^ 53) (one : -52 ≤ e) (le : (m : ℚ) * 2 ^ e ≤ x) :
    Normal x (UnpackedFloat.unpack Format.binary64 bits) := by
  subst hm he
  delta UnpackedFloat.unpack
  dsimp only
  rw [if_neg hordinary, if_neg hnonzero]
  exact .intro _ low high one le

/-- A number in the range is unpacked as it was packed. -/
theorem Normal.unpack_pack {x : ℚ} {u : UnpackedFloat} (hu : Normal x u) (hx : x < 2 ^ 1024) :
    Normal x (Float.Model.pack u).unpack := by
  obtain @⟨sign, m, e, hpos, low, high, one, le⟩ := hu
  have hexponent := exponent_lt low le hx
  have hlog : m.log2 = 52 := (Nat.log2_eq_iff hpos.ne').mpr ⟨low, high⟩
  have hbias : Format.binary64.exponentBias = 1023 := rfl
  have hbiased : (e + Format.binary64.exponentBias +
      Format.binary64.mantissaBitsWithoutImplicit).toNat = (e + 1075).toNat := by
    rw [hbias]
    simp only
    omega
  have hunbiased : ((e + 1075).toNat : Int) - ((Format.binary64.exponentBias : Int) +
      Format.binary64.mantissaBitsWithoutImplicit) = e := by
    rw [hbias]
    simp only
    omega
  have hfield : (BitVec.ofNat 11 (e + 1075).toNat).toNat = (e + 1075).toNat := by
    rw [BitVec.toNat_ofNat, Nat.mod_eq_of_lt (by omega)]
  have hpack : UnpackedFloat.pack Format.binary64 (.finite sign m e hpos) =
      packComponents Format.binary64 sign (BitVec.ofNat 11 (e + 1075).toNat)
        (BitVec.ofNat 52 m) := by
    rw [← hbiased]
    refine (if_neg ?_).trans (if_pos ?_)
    · rw [hbiased]
      simp only
      omega
    · rw [hlog]
      rfl
  have hmodel : (Float.Model.pack (.finite sign m e hpos)).unpack = UnpackedFloat.unpack
      Format.binary64 (UnpackedFloat.pack Format.binary64 (.finite sign m e hpos)) := rfl
  rw [hmodel, hpack]
  refine .unpack ?_ ?_ ?_ ?_ low high one le
  · -- The field is not that of infinity.
    rw [unpackExponent_packComponents]
    intro heq
    rw [heq] at hfield
    have : (-1#11).toNat = 2047 := rfl
    omega
  · -- Nor is it that of a number below the normal ones.
    rw [unpackExponent_packComponents]
    intro heq
    rw [heq, BitVec.toNat_zero] at hfield
    omega
  · rw [unpackMantissa_packComponents, toNat_mantissa low high]
  · rw [unpackExponent_packComponents, hfield, hunbiased]

theorem Normal.isInf {x : ℚ} {u : UnpackedFloat} (hu : Normal x u) : u.isInf = false := by
  cases hu
  rfl

/-- The product of two floats is finite when that of their bounds is half a unit away from the end
of the range. -/
theorem isInf_mul {a b : Float} {x y : ℚ} (ha : Normal x a.toModel.unpack)
    (hb : Normal y b.toModel.unpack) (hxy : x * y < rangeEnd) :
    (a * b).isInf = false := by
  obtain ⟨z, hz, hmul⟩ := ha.mul hb hxy
  exact (hmul.unpack_pack hz).isInf

/-- A number half a unit away from the end of the range is rounded to one in the range. -/
theorem roundBound_lt {n : Nat} (hn : 0 < n) (h : n < rangeEnd) : roundBound n < 2 ^ 1024 := by
  have hcast : (n : ℚ) * 2 ^ (0 : Int) < rangeEnd := by
    rw [zpow_zero, mul_one]
    exact Nat.cast_lt.mpr h
  have hlt := add_half_lt hn hcast
  rwa [zpow_zero, mul_one, Int.add_zero] at hlt

/-- A word that is not zero is rounded to a float. -/
theorem normal_toFloat {n : UInt64} (hn : 0 < n.toNat) :
    Normal (roundBound n.toNat) n.toFloat.toModel.unpack := by
  have hcompare : compare (n.toNat : Int) 0 = .gt := compare_gt_iff_gt.mpr (by omega)
  have hround : UnpackedFloat.ofUInt64 Format.binary64 n =
      UnpackedFloat.round Format.binary64 .positive n.toNat 0 := by
    rw [UnpackedFloat.ofUInt64, UnpackedFloat.ofNat, UnpackedFloat.ofInt, UnpackedFloat.normalize,
      hcompare]
    rfl
  have hmodel : n.toFloat.toModel =
      Float.Model.pack (UnpackedFloat.ofUInt64 Format.binary64 n) := rfl
  rw [hmodel, hround]
  exact (normal_round hn).unpack_pack
    (roundBound_lt hn (Nat.lt_trans n.toNat_lt (by decide +kernel)))

/-- The table of small powers of ten agrees with their rounding. -/
theorem toModel_ofScientific_one (e : Nat) :
    (Float.ofScientific 1 false e).toModel = Float.Model.ofScientific 1 e := by
  have htable : ∀ e < 23,
      (Float.ofScientific 1 false e).toModel = Float.Model.ofScientific 1 e := by
    decide +kernel
  by_cases he : e < 23
  · exact htable e he
  · rw [Float.ofScientific, dif_neg (by omega)]
    rfl

/-- A power of ten in the range is rounded to a float. -/
theorem normal_power {e : Nat} (he : e ≤ 308) :
    Normal (roundBound (10 ^ e)) (Float.ofScientific 1 false e).toModel.unpack := by
  rw [toModel_ofScientific_one]
  refine (normal_ofScientific he).unpack_pack (roundBound_lt (Nat.pow_pos (by decide)) ?_)
  calc 10 ^ e ≤ 10 ^ 308 := Nat.pow_le_pow_right (by decide) he
    _ < rangeEnd := by decide +kernel

/-- Half a unit in the last place is less than a part in `2 ^ 53`. -/
theorem roundBound_le {n : Nat} (hn : 0 < n) : roundBound n ≤ n * (1 + 2⁻¹ ^ 53) := by
  have hlead : (2 : ℚ) ^ (n.log2 : Int) ≤ n := by
    rw [zpow_natCast]
    exact_mod_cast Nat.log2_self_le hn.ne'
  have hhalf : (2 : ℚ) ^ ((n.log2 : Int) - 53) = 2 ^ (n.log2 : Int) * 2⁻¹ ^ 53 := by
    rw [zpow_sub₀ two_ne_zero, div_eq_mul_inv, inv_pow]
    rfl
  rw [roundBound, hhalf, mul_add, mul_one]
  gcongr

/-- Below two to the fifty-fourth, half a unit in the last place is at most one. -/
theorem roundBound_le_succ {n : Nat} (hn : 0 < n) (h : n < 2 ^ 54) :
    roundBound n ≤ (n + 1 : Nat) := by
  have hlog : n.log2 < 54 := (Nat.log2_lt hn.ne').mpr h
  rw [roundBound, Nat.cast_add, Nat.cast_one]
  gcongr
  exact zpow_le_one_of_nonpos₀ one_le_two (by omega)

/-- Two numbers are rounded to factors of a finite product when their product keeps away from the
end of the range by two parts in `2 ^ 53`. -/
theorem roundBound_mul_lt {m n bound : Nat} (hm : 0 < m) (hn : 0 < n) (h : m * n ≤ bound)
    (hbound : bound * (2 ^ 53 + 1) ^ 2 < rangeEnd * (2 ^ 53) ^ 2) :
    roundBound m * roundBound n < rangeEnd := by
  have hmn : (m : ℚ) * n ≤ bound := by exact_mod_cast h
  have hboundRat : (bound : ℚ) * (2 ^ 53 + 1) ^ 2 < rangeEnd * (2 ^ 53) ^ 2 := by
    exact_mod_cast hbound
  have hpos : (0 : ℚ) ≤ roundBound n := by rw [roundBound]; positivity
  calc roundBound m * roundBound n
      ≤ m * (1 + 2⁻¹ ^ 53) * (n * (1 + 2⁻¹ ^ 53)) := by
        gcongr
        · exact roundBound_le hm
        · exact roundBound_le hn
    _ = m * n * (1 + 2⁻¹ ^ 53) ^ 2 := by ring
    _ ≤ bound * (1 + 2⁻¹ ^ 53) ^ 2 := by gcongr
    _ = bound * (2 ^ 53 + 1) ^ 2 / (2 ^ 53) ^ 2 := by field_simp
    _ < rangeEnd := by rwa [div_lt_iff₀ (by positivity)]

end Lifecycle.Decimal
