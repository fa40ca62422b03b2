import Lifecycle.Decimal.Shortest
import Mathlib.Tactic.Ring

/-!
# What the shortest decimal is

The shortest decimal of a positive magnitude is a positive number of at most seventeen
digits, scaled by a power of ten, that is not above the rounding interval of the
magnitude (`Span.exists_shortest`).
-/

namespace Lifecycle.Decimal

namespace Span

/-- The interval is that of a positive magnitude. -/
structure Positive (s : Span) : Prop where
  /-- There is a denominator. -/
  unit : 0 < s.unit
  /-- Zero is below the interval. -/
  low : 0 < s.low
  /-- The magnitude is not below the lower end. -/
  low_le : s.low ≤ s.value
  /-- The magnitude is not above the upper end. -/
  le_high : s.value ≤ s.high

theorem Positive.value {s : Span} (h : s.Positive) : 0 < s.value :=
  Nat.lt_of_lt_of_le h.low h.low_le

theorem pow_length_toDigits_le {n : Nat} (h : 0 < n) :
    10 ^ ((Nat.toDigits 10 n).length - 1) ≤ n := by
  by_contra hlt
  have hpos : 0 < (Nat.toDigits 10 n).length := Nat.length_toDigits_pos
  by_cases hone : (Nat.toDigits 10 n).length = 1
  · simp only [hone, Nat.sub_self, Nat.pow_zero, Nat.not_le] at hlt
    omega
  · have hshort := (Nat.length_toDigits_le_iff (by decide) (by omega)).mpr (Nat.lt_of_not_le hlt)
    omega

theorem lt_pow_length_toDigits (n : Nat) : n < 10 ^ (Nat.toDigits 10 n).length :=
  (Nat.length_toDigits_le_iff (by decide) Nat.length_toDigits_pos).mp (Nat.le_refl _)

/-- The leading digit stands no higher than the magnitude reaches. -/
theorem pow_leading_le {s : Span} (h : s.Positive) :
    s.unit * 10 ^ s.leading.toNat ≤ s.value * 10 ^ (-s.leading).toNat := by
  rw [leading]
  split
  · next hle =>
    set quotient := s.value / s.unit with hquotient
    have hpos : 0 < quotient := Nat.div_pos hle h.unit
    have hlength : 0 < (Nat.toDigits 10 quotient).length := Nat.length_toDigits_pos
    have hup : (((Nat.toDigits 10 quotient).length : Int) - 1).toNat =
        (Nat.toDigits 10 quotient).length - 1 := by omega
    have hdown : (-(((Nat.toDigits 10 quotient).length : Int) - 1)).toNat = 0 := by omega
    rw [hup, hdown, Nat.pow_zero, Nat.mul_one]
    calc s.unit * 10 ^ ((Nat.toDigits 10 quotient).length - 1)
        ≤ s.unit * quotient := Nat.mul_le_mul_left _ (pow_length_toDigits_le hpos)
      _ ≤ s.value := Nat.mul_div_le _ _
  · set quotient := s.unit / s.value with hquotient
    set width := (Nat.toDigits 10 quotient).length with hwidth
    have hlength : 0 < width := Nat.length_toDigits_pos
    simp only
    split
    · next heq =>
      have hup : (1 - (width : Int)).toNat = 0 := by omega
      have hdown : (-(1 - (width : Int))).toNat = width - 1 := by omega
      rw [hup, hdown, Nat.pow_zero, Nat.mul_one]
      exact Nat.le_of_eq heq
    · have hup : (-(width : Int)).toNat = 0 := by omega
      have hdown : (- -(width : Int)).toNat = width := by omega
      rw [hup, hdown, Nat.pow_zero, Nat.mul_one]
      calc s.unit ≤ s.value * (quotient + 1) :=
            Nat.le_of_lt (Nat.lt_mul_div_succ s.unit h.value)
        _ ≤ s.value * 10 ^ width := Nat.mul_le_mul_left _ (lt_pow_length_toDigits quotient)

/-- The leading digit stands no lower than the magnitude reaches. -/
theorem lt_pow_leading {s : Span} (h : s.Positive) :
    s.value * 10 ^ (-(s.leading + 1)).toNat < s.unit * 10 ^ (s.leading + 1).toNat := by
  rw [leading]
  split
  · set quotient := s.value / s.unit with hquotient
    have hup : (((Nat.toDigits 10 quotient).length : Int) - 1 + 1).toNat =
        (Nat.toDigits 10 quotient).length := by omega
    have hdown : (-(((Nat.toDigits 10 quotient).length : Int) - 1 + 1)).toNat = 0 := by omega
    rw [hup, hdown, Nat.pow_zero, Nat.mul_one]
    calc s.value < s.unit * (quotient + 1) := Nat.lt_mul_div_succ s.value h.unit
      _ ≤ s.unit * 10 ^ (Nat.toDigits 10 quotient).length :=
        Nat.mul_le_mul_left _ (lt_pow_length_toDigits quotient)
  · next hless =>
    set quotient := s.unit / s.value with hquotient
    set width := (Nat.toDigits 10 quotient).length with hwidth
    have hlength : 0 < width := Nat.length_toDigits_pos
    have hpos : 0 < quotient := Nat.div_pos (by omega) h.value
    simp only
    split
    · next heq =>
      have hwide : 2 ≤ width := by
        by_contra hnarrow
        have hone : width = 1 := by omega
        rw [hone] at heq
        simp only [Nat.sub_self, Nat.pow_eq, Nat.pow_zero, Nat.mul_one] at heq
        omega
      have hup : (1 - (width : Int) + 1).toNat = 0 := by omega
      have hdown : (-(1 - (width : Int) + 1)).toNat = width - 2 := by omega
      rw [hup, hdown, Nat.pow_zero, Nat.mul_one, heq]
      exact Nat.mul_lt_mul_of_pos_left (Nat.pow_lt_pow_right (by decide) (by omega)) h.value
    · next hne =>
      have hup : (-(width : Int) + 1).toNat = 0 := by omega
      have hdown : (-(-(width : Int) + 1)).toNat = width - 1 := by omega
      rw [hup, hdown, Nat.pow_zero, Nat.mul_one]
      refine Nat.lt_of_le_of_ne ?_ fun heq => hne heq.symm
      calc s.value * 10 ^ (width - 1)
          ≤ s.value * quotient := Nat.mul_le_mul_left _ (pow_length_toDigits_le hpos)
        _ ≤ s.unit := Nat.mul_div_le _ _

/-- On a finer grid there are so many times more points up to a bound. -/
theorem mul_pow_lt {x y : Nat} {reach : Int} (steps : Nat)
    (h : x * 10 ^ (-reach).toNat < y * 10 ^ reach.toNat) :
    x * 10 ^ (-(reach - steps)).toNat < y * 10 ^ (reach - steps).toNat * 10 ^ steps := by
  have hexponents : reach.toNat + (-(reach - steps)).toNat =
      (-reach).toNat + ((reach - steps).toNat + steps) := by omega
  refine Nat.lt_of_mul_lt_mul_left (a := 10 ^ (-reach).toNat) ?_
  calc 10 ^ (-reach).toNat * (x * 10 ^ (-(reach - steps)).toNat)
      = x * 10 ^ (-reach).toNat * 10 ^ (-(reach - steps)).toNat := by ring
    _ < y * 10 ^ reach.toNat * 10 ^ (-(reach - steps)).toNat :=
        Nat.mul_lt_mul_of_pos_right h (Nat.pow_pos (by decide))
    _ = y * 10 ^ (reach.toNat + (-(reach - steps)).toNat) := by rw [Nat.pow_add]; ring
    _ = 10 ^ (-reach).toNat * (y * 10 ^ (reach - steps).toNat * 10 ^ steps) := by
        rw [hexponents, Nat.pow_add, Nat.pow_add]
        ring

/-- Zero does not round to the magnitude. -/
theorem holds_zero {s : Span} (h : s.Positive) (grid : Int) : s.holds 0 grid = false := by
  have hbelow : 0 < s.low * Nat.pow 10 (-grid).toNat := Nat.mul_pos h.low (Nat.pow_pos (by decide))
  have hnot : ¬s.low * Nat.pow 10 (-grid).toNat ≤ 0 := Nat.not_le.mpr hbelow
  simp only [holds, Nat.zero_mul, hnot, decide_false, Bool.false_and, Nat.not_lt_zero, ite_self]

/-- What rounds to the magnitude does not exceed the upper end of the interval. -/
theorem le_high_of_holds {s : Span} {count : Nat} {grid : Int} (h : s.holds count grid = true) :
    count * 10 ^ grid.toNat * s.unit ≤ s.high * 10 ^ (-grid).toNat := by
  simp only [holds] at h
  split at h <;> simp only [Bool.and_eq_true, decide_eq_true_eq] at h
  · exact h.2
  · exact Nat.le_of_lt h.2

/-- What stands for the magnitude on a grid rounds to it and is one of its two neighbours. -/
theorem eq_of_onGrid {s : Span} {grid : Int} {count : Nat} (h : s.onGrid grid = some count) :
    s.holds count grid = true ∧
      count ≤ s.value * 10 ^ (-grid).toNat / (s.unit * 10 ^ grid.toNat) + 1 := by
  simp only [onGrid] at h
  split at h
  · next hlower hupper =>
    split at h <;> obtain rfl := Option.some.inj h
    · exact ⟨hupper, Nat.le_refl _⟩
    · exact ⟨hlower, Nat.le_succ _⟩
  · next hlower _ =>
    obtain rfl := Option.some.inj h
    exact ⟨hlower, Nat.le_succ _⟩
  · next _ hupper =>
    obtain rfl := Option.some.inj h
    exact ⟨hupper, Nat.le_refl _⟩
  · cases h

/-- On a grid within seventeen digits of the leading one, the magnitude has seventeen digits. -/
theorem div_lt_pow {s : Span} (h : s.Positive) {steps : Nat} (hsteps : steps ≤ 16) :
    s.value * 10 ^ (-(s.leading - steps)).toNat / (s.unit * 10 ^ (s.leading - steps).toNat) <
      10 ^ 17 := by
  have hreach := mul_pow_lt (steps + 1) (lt_pow_leading h)
  have hgrid : s.leading + 1 - (steps + 1 : Nat) = s.leading - steps := by omega
  rw [hgrid] at hreach
  calc s.value * 10 ^ (-(s.leading - steps)).toNat / (s.unit * 10 ^ (s.leading - steps).toNat)
      < 10 ^ (steps + 1) := Nat.div_lt_of_lt_mul hreach
    _ ≤ 10 ^ 17 := Nat.pow_le_pow_right (by decide) (by omega)

/-- A decimal of at most seventeen digits that is not above the interval of the magnitude. -/
structure Fits (s : Span) (count : Nat) (grid : Int) : Prop where
  /-- It is not zero. -/
  pos : 0 < count
  /-- Its digits are few. -/
  short : count ≤ 10 ^ 17
  /-- It does not exceed the upper end. -/
  le_high : count * 10 ^ grid.toNat * s.unit ≤ s.high * 10 ^ (-grid).toNat

/-- What stands for the magnitude on a grid fits it. -/
theorem fits_of_onGrid {s : Span} (h : s.Positive) {steps count : Nat} (hsteps : steps ≤ 16)
    (hcount : s.onGrid (s.leading - steps) = some count) : s.Fits count (s.leading - steps) := by
  obtain ⟨hholds, hle⟩ := eq_of_onGrid hcount
  refine ⟨Nat.pos_of_ne_zero fun hzero => ?_, ?_, le_high_of_holds hholds⟩
  · rw [hzero, holds_zero h] at hholds
    cases hholds
  · exact Nat.le_trans hle (div_lt_pow h hsteps)

/-- Seventeen digits of the magnitude fit it. -/
theorem fits_div {s : Span} (h : s.Positive) :
    s.Fits (s.value * 10 ^ (-(s.leading - (16 : Nat))).toNat /
      (s.unit * 10 ^ (s.leading - (16 : Nat)).toNat)) (s.leading - (16 : Nat)) where
  pos := by
    refine Nat.div_pos ?_ (Nat.mul_pos h.unit (Nat.pow_pos (by decide)))
    calc s.unit * 10 ^ (s.leading - (16 : Nat)).toNat
        ≤ s.unit * 10 ^ s.leading.toNat :=
          Nat.mul_le_mul_left _ (Nat.pow_le_pow_right (by decide) (by omega))
      _ ≤ s.value * 10 ^ (-s.leading).toNat := pow_leading_le h
      _ ≤ s.value * 10 ^ (-(s.leading - (16 : Nat))).toNat :=
          Nat.mul_le_mul_left _ (Nat.pow_le_pow_right (by decide) (by omega))
  short := Nat.le_of_lt (div_lt_pow h (Nat.le_refl _))
  le_high := by
    rw [Nat.mul_assoc, Nat.mul_comm (10 ^ _) s.unit]
    exact Nat.le_trans (Nat.div_mul_le_self _ _) (Nat.mul_le_mul_right _ h.le_high)

/-- The shortest decimal is a number of units of some power of ten that fits the magnitude. -/
theorem exists_shortest {s : Span} (h : s.Positive) :
    ∃ count grid, s.Fits count grid ∧ s.shortest = .ofCount count grid := by
  simp only [shortest]
  split
  · next count grid hfound =>
    obtain ⟨_, hmem, hgrid⟩ := List.exists_of_findSome?_eq_some hfound
    obtain ⟨_, hcount, heq⟩ := Option.map_eq_some_iff.mp hgrid
    obtain ⟨rfl, rfl⟩ := Prod.mk.inj heq
    obtain ⟨steps, hsteps, rfl⟩ := List.mem_map.mp hmem
    exact ⟨_, _, fits_of_onGrid h (Nat.le_of_lt_succ (List.mem_range.mp hsteps)) hcount, rfl⟩
  · have hneg : (16 - s.leading).toNat = (-(s.leading - (16 : Nat))).toNat := by omega
    rw [hneg]
    exact ⟨_, _, fits_div h, rfl⟩

/-- The magnitude of a finite number other than zero is positive. -/
theorem positive_ofBinary {mantissa : Nat} (h : 0 < mantissa) (exponent : Int)
    (narrowBelow : Bool) :
    (ofBinary mantissa exponent narrowBelow).Positive where
  unit := Nat.pow_pos (by decide)
  low := by
    refine Nat.mul_pos ?_ (Nat.pow_pos (by decide))
    split <;> omega
  low_le := Nat.mul_le_mul_right _ (Nat.sub_le _ _)
  le_high := Nat.mul_le_mul_right _ (Nat.le_add_right _ _)

end Span

end Lifecycle.Decimal
