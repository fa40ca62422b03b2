import Lifecycle.Proofs.Json.ReadBack
import Lifecycle.Proofs.Json.Scale

/-!
# The text of a float denotes a number

Reading scales a numeral with powers of ten that are rounded themselves, so a numeral
near the end of the range may be found too great although it is not. That never happens
to the text of a float (`Number.isSome_value?`): its digits are few, and at the very end
of the range they fall on the right side.
-/

namespace Lifecycle

namespace Json.Numeral

/-- Digits denote less than the power of ten of their number. -/
theorem ofDigitChars_lt_pow {ds : List Char} (h : ∀ c ∈ ds, c.isDigit = true) :
    Nat.ofDigitChars 10 ds 0 < 10 ^ ds.length := by
  induction ds with
  | nil => exact Nat.one_pos
  | cons c ds ih =>
    rw [List.forall_mem_cons] at h
    have hdigit : c.toNat - '0'.toNat ≤ 9 := by
      have hrange := Char.isDigit_iff_toNat.mp h.1
      simp only [Char.reduceToNat] at hrange ⊢
      omega
    have hrest := ih h.2
    have hmul := Nat.mul_le_mul_left (10 ^ ds.length) hdigit
    rw [Nat.ofDigitChars_cons, Nat.ofDigitChars_eq_ofDigitChars_zero, Nat.mul_zero, Nat.zero_add,
      List.length_cons, Nat.pow_succ]
    omega

/-- A numeral with few digits that is no integer denotes them, scaled. -/
theorem value?_eq_map {n : Numeral} (hn : n.fraction.isSome ∨ n.exponent.isSome)
    (hsmall : Nat.ofDigitChars 10 (n.whole ++ n.fraction.getD []) 0 < UInt64.size) :
    n.value? = (magnitude? (Nat.ofDigitChars 10 (n.whole ++ n.fraction.getD []) 0)
      (-((n.fraction.getD []).length : Int)) n.exponent).map
        fun x => .float (if n.negative then -x else x) := by
  rw [Nat.ofDigitChars_append] at hsmall ⊢
  have hwhole := gather_eq (Nat.lt_of_le_of_lt (le_ofDigitChars _ _) hsmall)
  have hfraction := gather_eq hsmall
  obtain ⟨negative, whole, fraction, exponent⟩ := n
  simp only at hwhole hfraction hn ⊢
  rw [value?]
  simp only [hwhole]
  split
  · simp at hn
  · simp only [hfraction, List.length_nil, Nat.sub_zero]
    rw [Int.ofNat_zero, Int.zero_sub]

/-- A value below one in units of the last digit is always found. -/
theorem isSome_scale?_of_neg {significand : Nat} {exponent : Int} (h : exponent < 0) :
    (scale? significand exponent).isSome := by
  rw [scale?, if_pos h]
  rfl

end Json.Numeral

namespace Json.Number

open Numeral

/-- Significant digits of a number that reading does not find too great. -/
structure Readable (d : Decimal.Digits) : Prop where
  /-- They are significant. -/
  significant : d.Significant
  /-- They do not denote zero. -/
  pos : 0 < Nat.ofDigitChars 10 d.digits 0
  /-- They are few. -/
  short : d.digits.length ≤ 18
  /-- They denote a number of at most seventeen digits. -/
  small : Nat.ofDigitChars 10 d.digits 0 ≤ 10 ^ 17
  /-- When they stand for an integer, it does not exceed the middle of the two greatest floats. -/
  reach : ∀ power : Nat, d.point = d.digits.length + power →
    Nat.ofDigitChars 10 d.digits 0 * 10 ^ power ≤ topMiddle

/-- Cutting off zeros at the end divides by a power of ten. -/
theorem exists_mul_pow (count : Nat) (grid : Int) :
    ∃ zeros,
      (Nat.toDigits 10 count).length = (Decimal.Digits.ofCount count grid).digits.length + zeros ∧
      count = Nat.ofDigitChars 10 (Decimal.Digits.ofCount count grid).digits 0 * 10 ^ zeros := by
  set all := Nat.toDigits 10 count with hall
  set tail := all.reverse.takeWhile (· == '0') with htail
  have hzeros : tail.reverse = List.replicate tail.length '0' := by
    rw [List.eq_replicate_iff, List.length_reverse]
    refine ⟨rfl, fun c hc => ?_⟩
    exact eq_of_beq (List.mem_takeWhile_imp (p := (· == '0')) (List.mem_reverse.mp hc))
  have hsplit :
      (Decimal.Digits.ofCount count grid).digits ++ List.replicate tail.length '0' = all := by
    rw [← hzeros, Decimal.Digits.ofCount, ← List.reverse_append, List.takeWhile_append_dropWhile,
      List.reverse_reverse]
  refine ⟨tail.length, ?_, ?_⟩
  · rw [← hsplit, List.length_append, List.length_replicate]
  · have hvalue : Nat.ofDigitChars 10 all 0 = count := Nat.ofDigitChars_ten_toDigits
    rw [← hsplit, Nat.ofDigitChars_append, Nat.ofDigitChars_replicate_zero] at hvalue
    exact hvalue.symm.trans (Nat.mul_comm _ _)

/-- A decimal that fits a magnitude is readable, but at the very end of the range. -/
theorem readable_ofCount {s : Decimal.Span} {count : Nat} {grid : Int} (hunit : 0 < s.unit)
    (hfits : s.Fits count grid) (hhigh : s.high ≤ topMiddle * s.unit) :
    Readable (.ofCount count grid) := by
  obtain ⟨zeros, hlength, hcount⟩ := exists_mul_pow count grid
  have hpos := hfits.pos
  have hshort := hfits.short
  have hle := hfits.le_high
  set d := Decimal.Digits.ofCount count grid with hd
  set significand := Nat.ofDigitChars 10 d.digits 0 with hsignificand
  have hsignificandPos : 0 < significand :=
    Nat.pos_of_ne_zero fun hzero => by rw [hzero, Nat.zero_mul] at hcount; omega
  have hpoint : d.point = (Nat.toDigits 10 count).length + grid := rfl
  refine ⟨Decimal.Digits.significant_ofCount hpos grid, hsignificandPos, ?_, ?_, ?_⟩
  · have hwidth : (Nat.toDigits 10 count).length ≤ 18 :=
      (Nat.length_toDigits_le_iff (by decide) (by decide)).mpr (by omega)
    omega
  · exact Nat.le_trans (Nat.le_mul_of_pos_right _ (Nat.pow_pos (by decide)))
      (hcount ▸ hshort)
  · intro power hpower
    have hexponents : power + (-grid).toNat = zeros + grid.toNat := by omega
    refine Nat.le_of_mul_le_mul_right ?_
      (Nat.mul_pos (Nat.pow_pos (by decide) : 0 < 10 ^ (-grid).toNat) hunit)
    calc significand * 10 ^ power * (10 ^ (-grid).toNat * s.unit)
        = significand * 10 ^ (power + (-grid).toNat) * s.unit := by rw [pow_add]; ring
      _ = count * 10 ^ grid.toNat * s.unit := by rw [hexponents, pow_add, hcount]; ring
      _ ≤ s.high * 10 ^ (-grid).toNat := hle
      _ ≤ topMiddle * s.unit * 10 ^ (-grid).toNat := Nat.mul_le_mul_right _ hhigh
      _ = topMiddle * (10 ^ (-grid).toNat * s.unit) := by ring

/-- The last digit stands within reach. -/
theorem Readable.point_le {d : Decimal.Digits} (h : Readable d) : d.point ≤ 326 := by
  have hshort := h.short
  by_contra hfar
  obtain ⟨power, hpower⟩ : ∃ power : Nat, d.point = d.digits.length + power :=
    ⟨(d.point - d.digits.length).toNat, by omega⟩
  have hbeyond : topMiddle < 10 ^ 309 := by decide +kernel
  have hle : 10 ^ 309 ≤ topMiddle :=
    calc 10 ^ 309 ≤ 10 ^ power := pow_le_pow_right₀ (by decide) (by omega)
      _ ≤ Nat.ofDigitChars 10 d.digits 0 * 10 ^ power := Nat.le_mul_of_pos_left _ h.pos
      _ ≤ topMiddle := h.reach power hpower
  exact absurd hle (Nat.not_le.mpr hbeyond)

/-- With a fraction and without an exponent, few digits denote a number. -/
theorem isSome_value?_of_fraction {negative : Bool} {whole fraction : List Char}
    (hne : fraction ≠ [])
    (hsmall : Nat.ofDigitChars 10 (whole ++ fraction) 0 < UInt64.size) :
    (⟨negative, whole, some fraction, none⟩ : Numeral).value?.isSome := by
  have hlength := List.length_pos_iff.mpr hne
  rw [value?_eq_map (.inl rfl) hsmall, Option.isSome_map, magnitude?, Option.getD_some]
  exact isSome_scale?_of_neg (by omega)

/-- With an exponent, readable digits denote a number. -/
theorem isSome_value?_of_exponent {negative : Bool} {d : Decimal.Digits} (h : Readable d) :
    (⟨negative, d.digits.take 1, if d.digits.length = 1 then none else some (d.digits.drop 1),
      some (decide (d.point - 1 < 0), Nat.toDigits 10 (d.point - 1).natAbs)⟩ :
        Numeral).value?.isSome := by
  have hsmall := h.small
  have hpoint := h.point_le
  have hlength : 0 < d.digits.length := List.length_pos_iff.mpr h.significant.digits.1
  set fraction := if d.digits.length = 1 then none else some (d.digits.drop 1) with hfraction
  have hdrop : fraction.getD [] = d.digits.drop 1 := by
    rw [hfraction]
    split
    · next hone => exact (List.drop_eq_nil_of_le (by omega)).symm
    · rfl
  have hsize : UInt64.size = 18446744073709551616 := rfl
  rw [value?_eq_map (.inr rfl) (by simp only [hdrop, List.take_append_drop]; omega),
    Option.isSome_map]
  simp only [hdrop, List.take_append_drop, magnitude?, Nat.ofDigitChars_ten_toDigits,
    List.length_drop]
  split
  · next hhuge =>
    have hbelow : d.point - 1 < 0 := by omega
    rw [if_pos (.inr (decide_eq_true hbelow))]
    rfl
  · next hnear =>
    have hexponent : (if decide (d.point - 1 < 0) = true
        then -((d.digits.length - 1 : Nat) : Int) - (d.point - 1).natAbs
        else -((d.digits.length - 1 : Nat) : Int) + (d.point - 1).natAbs) =
          d.point - d.digits.length := by
      split
      · next hbelow =>
        have := of_decide_eq_true hbelow
        omega
      · next hbelow =>
        have := of_decide_eq_false (Bool.eq_false_iff.mpr hbelow)
        omega
    rw [hexponent]
    by_cases hscale : d.point - d.digits.length < 0
    · exact isSome_scale?_of_neg (by omega)
    · obtain ⟨power, hpower⟩ : ∃ power : Nat, d.point = d.digits.length + power :=
        ⟨(d.point - d.digits.length).toNat, by omega⟩
      have hclamp :
          max (-0x80000000) (min (d.point - d.digits.length) 0x7FFFFFFF) = (power : Int) := by
        omega
      rw [hclamp]
      exact isSome_scale? h.pos hsmall (h.reach power hpower)

/-- However readable digits are laid out, they denote a number. -/
theorem isSome_value?_layoutNumeral (negative : Bool) {d : Decimal.Digits} (h : Readable d) :
    (layoutNumeral negative d).value?.isSome := by
  have hdigits := h.significant.digits
  have hlength : 0 < d.digits.length := List.length_pos_iff.mpr hdigits.1
  have hsize : UInt64.size = 18446744073709551616 := rfl
  have hsmall := h.small
  simp only [layoutNumeral]
  split
  · next hinteger =>
    simp only [Bool.and_eq_true, decide_eq_true_eq] at hinteger
    refine isSome_value?_of_fraction (List.cons_ne_nil _ _) ?_
    set ds := d.digits ++ List.replicate (d.point - d.digits.length).toNat '0' ++ ['0'] with hds
    have hwidth : ds.length ≤ 17 := by
      rw [hds]
      simp only [List.length_append, List.length_replicate, List.length_singleton]
      omega
    have harith : ∀ c ∈ ds, c.isDigit = true := by
      intro c hc
      rcases List.mem_append.mp hc with hc | hc
      · rcases List.mem_append.mp hc with hc | hc
        · exact hdigits.2 c hc
        · rw [(List.mem_replicate.mp hc).2]
          rfl
      · rw [List.mem_singleton.mp hc]
        rfl
    calc Nat.ofDigitChars 10 ds 0 < 10 ^ ds.length := ofDigitChars_lt_pow harith
      _ ≤ 10 ^ 17 := Nat.pow_le_pow_right (by decide) hwidth
      _ < UInt64.size := by decide
  split
  · next hwide hpoint =>
    simp only [Bool.and_eq_true, decide_eq_true_eq] at hwide hpoint
    refine isSome_value?_of_fraction ?_ ?_
    · rw [ne_eq, List.drop_eq_nil_iff]
      omega
    · rw [List.take_append_drop]
      omega
  split
  · have hzero : Nat.ofDigitChars 10 ['0'] 0 = 0 := rfl
    refine isSome_value?_of_fraction (by simp [hdigits.1]) ?_
    rw [Nat.ofDigitChars_append, Nat.ofDigitChars_append, hzero, Nat.ofDigitChars_replicate_zero,
      Nat.mul_zero]
    omega
  · exact isSome_value?_of_exponent h

/-- The interval of a finite number ends by the middle of the two greatest floats, unless it is that
of the greatest one. -/
theorem high_le_or_eq_greatest {bits : UInt64} (hfinite : bits >>> 52 &&& 0x7FF ≠ 0x7FF) :
    (Decimal.Span.ofBits bits).high ≤ topMiddle * (Decimal.Span.ofBits bits).unit ∨
      Decimal.Span.ofBits bits = .ofBinary 0x1FFFFFFFFFFFFF 971 false := by
  have hfield : (bits >>> 52 &&& 0x7FF).toNat < 2047 := by
    have hle : (bits >>> 52 &&& 0x7FF).toNat ≤ 2047 := UInt64.toNat_and _ _ ▸ Nat.and_le_right
    have hne : (bits >>> 52 &&& 0x7FF).toNat ≠ 2047 := fun heq =>
      hfinite (UInt64.toNat_inj.mp heq)
    omega
  have hfraction : (bits &&& 0xFFFFFFFFFFFFF).toNat < 2 ^ 52 :=
    Nat.lt_of_le_of_lt (UInt64.toNat_and _ _ ▸ Nat.and_le_right) (by decide)
  rw [Decimal.Span.ofBits]
  generalize (bits >>> 52 &&& 0x7FF).toNat = field at hfield ⊢
  generalize (bits &&& 0xFFFFFFFFFFFFF).toNat = fraction at hfraction ⊢
  have hhigh : ∀ {mantissa : Nat} {exponent : Int} {narrow : Bool},
      (4 * mantissa + 2) * 2 ^ (exponent - 2).toNat ≤ topMiddle →
        (Decimal.Span.ofBinary mantissa exponent narrow).high ≤
          topMiddle * (Decimal.Span.ofBinary mantissa exponent narrow).unit :=
    fun hle => Nat.le_trans hle (Nat.le_mul_of_pos_right _ (Nat.pow_pos (by decide)))
  have hbelow : 2 ^ 55 * 2 ^ 968 ≤ topMiddle := by decide +kernel
  have hlast : (4 * (2 ^ 53 - 2) + 2) * 2 ^ 969 ≤ topMiddle := by decide +kernel
  split
  · refine .inl (hhigh (Nat.le_trans ?_ hbelow))
    exact Nat.mul_le_mul (by omega) (pow_le_pow_right₀ (by decide) (by omega))
  by_cases htop : field = 2046
  · subst htop
    by_cases hfull : fraction = 2 ^ 52 - 1
    · subst hfull
      exact .inr rfl
    · refine .inl (hhigh (Nat.le_trans ?_ hlast))
      exact Nat.mul_le_mul (by omega) (pow_le_pow_right₀ (by decide) (by omega))
  · refine .inl (hhigh (Nat.le_trans ?_ hbelow))
    exact Nat.mul_le_mul (by omega) (pow_le_pow_right₀ (by decide) (by omega))

/-- The text of a float denotes a number, unless the float has no text. -/
theorem isSome_value? {x : Float} {n : Numeral} (h : floatNumeral? x = some n) :
    n.value?.isSome := by
  simp only [floatNumeral?] at h
  split at h
  · cases h
  next hfinite =>
  split at h
  · obtain rfl := Option.some.inj h
    generalize decide (x.toBits >>> 63 = 1) = negative
    cases negative <;> decide
  next hne =>
  obtain rfl := Option.some.inj h
  generalize decide (x.toBits >>> 63 = 1) = negative
  rcases high_le_or_eq_greatest hfinite with hhigh | hgreatest
  · have hpositive := positive_ofBits hne
    obtain ⟨count, grid, hfits, hshortest⟩ := Decimal.Span.exists_shortest hpositive
    rw [hshortest]
    exact isSome_value?_layoutNumeral negative (readable_ofCount hpositive.unit hfits hhigh)
  · rw [hgreatest]
    cases negative <;> decide +kernel

/-- What is read from the text of a number is never unreadable. -/
theorem reread_ne_unreadable (n : Number) : n.reread ≠ .unreadable := by
  cases n with
  | integer n => simp [reread]
  | float x =>
    rw [reread]
    cases hnumeral : floatNumeral? x with
    | none => simp
    | some numeral =>
      obtain ⟨n, hn⟩ := Option.isSome_iff_exists.mp (isSome_value? hnumeral)
      simp [hn]

end Json.Number

end Lifecycle
