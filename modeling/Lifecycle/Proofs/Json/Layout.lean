import Lifecycle.Proofs.Decimal.Shortest
import Lifecycle.Proofs.Json.Numeral
import Mathlib.Data.List.DropRight

/-!
# The text of a float is a numeral

However the significant digits of a float are laid out, the parts are those of a
well-formed numeral. So the text of every finite float is read as a numeral, and
`Number.reread` says what comes of it.
-/

namespace Lifecycle

namespace Decimal

/-- Significant digits start with a digit that is not zero. -/
structure Digits.Significant (d : Digits) : Prop where
  /-- They are digits. -/
  digits : Json.Numeral.AreDigits d.digits
  /-- The first one is not zero. -/
  lead : d.digits.head? ≠ some '0'

/-- The digits of a positive number are significant once the zeros at the end are cut off. -/
theorem Digits.significant_ofCount {count : Nat} (h : 0 < count) (grid : Int) :
    (ofCount count grid).Significant := by
  have hlead : (Nat.toDigits 10 count).head? ≠ some '0' := fun hzero =>
    Nat.ne_of_gt h (Json.Numeral.head?_toDigits count hzero)
  have hfront : (ofCount count grid).digits <+: Nat.toDigits 10 count :=
    List.rdropWhile_prefix (· == '0') _
  have hne : (ofCount count grid).digits ≠ [] := by
    intro hnil
    have hzeros := List.rdropWhile_eq_nil_iff.mp hnil
    obtain ⟨c, rest, hcons⟩ := List.exists_cons_of_ne_nil
      (Nat.toDigits_ne_nil : Nat.toDigits 10 count ≠ [])
    have hc := hzeros c (by simp [hcons])
    rw [hcons, List.head?_cons, eq_of_beq hc] at hlead
    exact hlead rfl
  refine ⟨⟨hne, fun c hc => ?_⟩, ?_⟩
  · exact (Json.Numeral.areDigits_toDigits count).2 c (hfront.subset hc)
  · obtain ⟨rest, happend⟩ := hfront
    rwa [← happend, List.head?_append,
      Option.or_of_isSome (List.isSome_head?.mpr hne)] at hlead

end Decimal

namespace Json

namespace Numeral

/-- A row of digits stays one when digits are added. -/
theorem AreDigits.append {ds es : List Char} (hds : AreDigits ds)
    (hes : ∀ c ∈ es, c.isDigit = true) : AreDigits (ds ++ es) := by
  refine ⟨by simp [hds.1], fun c hc => ?_⟩
  rcases List.mem_append.mp hc with hc | hc
  · exact hds.2 c hc
  · exact hes c hc

end Numeral

namespace Number

/-- The parts of a numeral in which significant digits are laid out. -/
def layoutNumeral (negative : Bool) (d : Decimal.Digits) : Numeral :=
  let width : Int := d.digits.length
  if width ≤ d.point && d.point ≤ 16 then
    ⟨negative, d.digits ++ List.replicate (d.point - width).toNat '0', some ['0'], none⟩
  else if 0 < d.point && d.point ≤ 16 then
    ⟨negative, d.digits.take d.point.toNat, some (d.digits.drop d.point.toNat), none⟩
  else if -5 < d.point && d.point ≤ 0 then
    ⟨negative, ['0'], some (List.replicate (-d.point).toNat '0' ++ d.digits), none⟩
  else
    ⟨negative, d.digits.take 1, if d.digits.length = 1 then none else some (d.digits.drop 1),
      some (decide (d.point - 1 < 0), Nat.toDigits 10 (d.point - 1).natAbs)⟩

/-- The text of the laid out parts is the layout. -/
theorem chars_layoutNumeral (negative : Bool) (d : Decimal.Digits) :
    (layoutNumeral negative d).chars = (if negative then ['-'] else []) ++ layout d := by
  simp only [layoutNumeral, layout]
  split
  · simp [Numeral.chars]
  split
  · simp [Numeral.chars]
  split
  · simp [Numeral.chars]
  obtain ⟨digits, point⟩ := d
  rcases digits with _ | ⟨single, _ | ⟨second, rest⟩⟩ <;>
    simp [Numeral.chars]

/-- The laid out parts are those of a numeral. -/
theorem wellFormed_layoutNumeral (negative : Bool) {d : Decimal.Digits} (h : d.Significant) :
    (layoutNumeral negative d).WellFormed := by
  have hlength : 0 < d.digits.length := List.length_pos_iff.mpr h.digits.1
  have htake : ∀ {n : Nat}, 0 < n → Numeral.AreDigits (d.digits.take n) ∧
      (d.digits.take n).head? ≠ some '0' := by
    intro n hn
    refine ⟨⟨?_, fun c hc => h.digits.2 c (List.mem_of_mem_take hc)⟩, ?_⟩
    · simp only [ne_eq, List.take_eq_nil_iff, h.digits.1, or_false]
      omega
    · rw [List.head?_take, if_neg (by omega)]
      exact h.lead
  have hdrop : ∀ {n : Nat}, n < d.digits.length → Numeral.AreDigits (d.digits.drop n) := by
    intro n hn
    exact ⟨by simpa using hn, fun c hc => h.digits.2 c (List.mem_of_mem_drop hc)⟩
  have hzero : Numeral.AreDigits ['0'] := Numeral.areDigits_toDigits 0
  simp only [layoutNumeral]
  split
  · refine ⟨h.digits.append ?_, ?_, ?_, nofun⟩
    · intro c hc
      rw [(List.mem_replicate.mp hc).2]
      rfl
    · intro hlead
      rw [List.head?_append, Option.or_of_isSome (List.isSome_head?.mpr h.digits.1)] at hlead
      exact absurd hlead h.lead
    · rintro _ ⟨⟩
      exact hzero
  split
  · next hshort hpoint =>
    simp only [Bool.and_eq_true, decide_eq_true_eq] at hshort hpoint
    refine ⟨(htake (by omega)).1, fun hlead => absurd hlead (htake (by omega)).2, ?_, nofun⟩
    rintro _ ⟨⟩
    exact hdrop (by omega)
  split
  · refine ⟨hzero, fun _ => rfl, ?_, nofun⟩
    rintro _ ⟨⟩
    refine ⟨by simp [h.digits.1], fun c hc => ?_⟩
    rcases List.mem_append.mp hc with hc | hc
    · rw [(List.mem_replicate.mp hc).2]
      rfl
    · exact h.digits.2 c hc
  · refine ⟨(htake Nat.one_pos).1, fun hlead => absurd hlead (htake Nat.one_pos).2, ?_, ?_⟩
    · intro ds hds
      split at hds
      · cases hds
      · obtain rfl := Option.some.inj hds
        exact hdrop (by omega)
    · rintro _ ⟨⟩
      exact Numeral.areDigits_toDigits _

/-- The numeral of a float, unless it is infinite or not a number. -/
def floatNumeral? (x : Float) : Option Numeral :=
  let bits := x.toBits
  let negative := decide (bits >>> 63 = 1)
  if bits >>> 52 &&& 0x7FF = 0x7FF then none
  else if bits &&& 0x7FFFFFFFFFFFFFFF = 0 then some ⟨negative, ['0'], some ['0'], none⟩
  else some (layoutNumeral negative (Decimal.Span.ofBits bits).shortest)

/-- The text of a float is that of its numeral. -/
theorem floatChars?_eq (x : Float) : floatChars? x = (floatNumeral? x).map Numeral.chars := by
  have hsign : (if x.toBits >>> 63 = 1 then ['-'] else []) =
      if decide (x.toBits >>> 63 = 1) = true then ['-'] else [] := by simp
  simp only [floatChars?, floatNumeral?]
  split
  · rfl
  split
  · simp [Numeral.chars]
  · rw [Option.map_some, chars_layoutNumeral, hsign]

/-- The magnitude of a finite float other than zero is positive. -/
theorem positive_ofBits {bits : UInt64} (h : bits &&& 0x7FFFFFFFFFFFFFFF ≠ 0) :
    (Decimal.Span.ofBits bits).Positive := by
  rw [Decimal.Span.ofBits]
  split
  · next hfield =>
    refine Decimal.Span.positive_ofBinary (Nat.pos_of_ne_zero fun hfraction => h ?_) _ _
    rw [← UInt64.toNat_inj]
    simp only [UInt64.toNat_and, UInt64.toNat_shiftRight, UInt64.reduceToNat] at hfield hfraction ⊢
    have hmask : ∀ n x : Nat, x &&& (2 ^ n - 1) = x % 2 ^ n := fun n x =>
      Nat.and_two_pow_sub_one_eq_mod x n
    have hf := hmask 11 (bits.toNat >>> 52)
    have hm := hmask 52 bits.toNat
    have hb := hmask 63 bits.toNat
    simp only [Nat.shiftRight_eq_div_pow] at hf hfield
    norm_num at hf hm hb hfield hfraction ⊢
    omega
  · exact Decimal.Span.positive_ofBinary (by omega) _ _

/-- The numeral of a float is well formed. -/
theorem wellFormed_floatNumeral {x : Float} {n : Numeral} (h : floatNumeral? x = some n) :
    n.WellFormed := by
  simp only [floatNumeral?] at h
  split at h
  · cases h
  split at h
  · obtain rfl := Option.some.inj h
    have hzero : Numeral.AreDigits ['0'] := Numeral.areDigits_toDigits 0
    refine ⟨hzero, fun _ => rfl, ?_, nofun⟩
    rintro _ ⟨⟩
    exact hzero
  · next hne =>
    obtain rfl := Option.some.inj h
    obtain ⟨count, grid, hfits, hshortest⟩ := Decimal.Span.exists_shortest (positive_ofBits hne)
    rw [hshortest]
    exact wellFormed_layoutNumeral _ (Decimal.Digits.significant_ofCount hfits.pos grid)

end Number

end Json

end Lifecycle
