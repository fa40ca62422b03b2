import Lifecycle.Json.Reader

/-!
# Numerals read back

`Numeral.chars` writes the parts of a numeral one after the other, and reading cuts
the same parts off any text that goes on with something else
(`Numeral.scan_chars`). The digits of an integer within 64 bits denote that integer.
-/

namespace Lifecycle.Json

namespace Numeral

/-- All characters are decimal digits, and there is at least one. -/
def AreDigits (ds : List Char) : Prop := ds ≠ [] ∧ ∀ c ∈ ds, c.isDigit = true

/-- The parts are such as a numeral may have. -/
structure WellFormed (n : Numeral) : Prop where
  /-- The part before the point is a number. -/
  whole : AreDigits n.whole
  /-- It starts with a zero only when it is zero. -/
  lead : n.whole.head? = some '0' → n.whole = ['0']
  /-- The part after the point is a row of digits. -/
  fraction : ∀ ds ∈ n.fraction, AreDigits ds
  /-- The exponent is a number. -/
  exponent : ∀ power ∈ n.exponent, AreDigits power.2

/-- The text of a numeral; the exponent always has a sign. -/
def chars (n : Numeral) : List Char :=
  (if n.negative then ['-'] else []) ++ n.whole
    ++ (n.fraction.map fun ds => '.' :: ds).getD []
    ++ (n.exponent.map fun power => 'e' :: (if power.1 then '-' else '+') :: power.2).getD []

/-- The text does not go on with anything that could belong to a numeral. -/
def Stops (text : List Char) : Prop :=
  ∀ c ∈ text.head?, c.isDigit = false ∧ c ≠ '.' ∧ c ≠ 'e' ∧ c ≠ 'E'

theorem stops_nil : Stops [] := by
  simp [Stops]

theorem stops_cons {c : Char} {text : List Char}
    (h : c.isDigit = false ∧ c ≠ '.' ∧ c ≠ 'e' ∧ c ≠ 'E') : Stops (c :: text) := by
  rintro _ ⟨⟩
  exact h

/-- A row of digits is cut off where it ends. -/
theorem digits_append {ds text : List Char} (hds : ∀ c ∈ ds, c.isDigit = true)
    (htext : ∀ c ∈ text.head?, c.isDigit = false) : digits (ds ++ text) = (ds, text) := by
  rw [digits, List.takeWhile_append_of_pos hds, List.dropWhile_append_of_pos hds]
  cases text with
  | nil => simp
  | cons c text => simp [htext c rfl]

/-- The part before the point is cut off. -/
theorem scanWhole_append {whole text : List Char} (hwhole : AreDigits whole)
    (hlead : whole.head? = some '0' → whole = ['0'])
    (htext : ∀ c ∈ text.head?, c.isDigit = false) :
    scanWhole (whole ++ text) = some (whole, text) := by
  rw [scanWhole, digits_append hwhole.2 htext]
  split
  · next h => exact absurd (Prod.mk.inj h).1 hwhole.1
  · next h => rw [← (Prod.mk.inj h).1, ← (Prod.mk.inj h).2]
  · next hne h =>
    obtain ⟨rfl, rfl⟩ := Prod.mk.inj h
    obtain ⟨_, rfl⟩ := List.cons.inj (hlead rfl)
    exact absurd rfl hne
  · next h => rw [← (Prod.mk.inj h).1, ← (Prod.mk.inj h).2]

/-- The part after the point is cut off, if there is one. -/
theorem scanFraction_append {fraction : Option (List Char)} {text : List Char}
    (hfraction : ∀ ds ∈ fraction, AreDigits ds)
    (htext : ∀ c ∈ text.head?, c.isDigit = false ∧ c ≠ '.') :
    scanFraction ((fraction.map fun ds => '.' :: ds).getD [] ++ text) = some (fraction, text) := by
  cases fraction with
  | none =>
    have hpoint : ∀ rest, text ≠ '.' :: rest := by
      rintro rest rfl
      exact (htext _ rfl).2 rfl
    exact scanFraction.eq_2 text hpoint
  | some ds =>
    have hds := hfraction ds rfl
    rw [Option.map_some, Option.getD_some, List.cons_append, scanFraction,
      digits_append hds.2 fun c hc => (htext c hc).1]
    cases ds with
    | nil => exact absurd rfl hds.1
    | cons => rfl

/-- The exponent is cut off, if there is one. -/
theorem scanExponent_append {exponent : Option (Bool × List Char)} {text : List Char}
    (hexponent : ∀ power ∈ exponent, AreDigits power.2) (htext : Stops text) :
    scanExponent ((exponent.map fun power =>
      'e' :: (if power.1 then '-' else '+') :: power.2).getD [] ++ text) = some (exponent, text) := by
  cases exponent with
  | none =>
    cases text with
    | nil => rfl
    | cons c text =>
      have hc := (htext c rfl).2.2
      simp [scanExponent, hc]
  | some power =>
    obtain ⟨negative, ds⟩ := power
    have hds := hexponent _ rfl
    have hpower : ∀ negative, scanPower negative (ds ++ text) = some (some (negative, ds), text) := by
      intro negative
      rw [scanPower, digits_append hds.2 fun c hc => (htext c hc).1]
      cases ds with
      | nil => exact absurd rfl hds.1
      | cons => rfl
    cases negative <;> simp [scanExponent, hpower]

/-- A numeral is read as the parts it was written from. -/
theorem scan_chars {n : Numeral} (hn : n.WellFormed) {text : List Char} (htext : Stops text) :
    scan (n.chars ++ text) = some (n, text) := by
  obtain ⟨negative, whole, fraction, exponent⟩ := n
  have hunsigned : scanUnsigned negative (whole ++ ((fraction.map fun ds => '.' :: ds).getD [] ++
      ((exponent.map fun power => 'e' :: (if power.1 then '-' else '+') :: power.2).getD [] ++
        text))) = some (⟨negative, whole, fraction, exponent⟩, text) := by
    have hexponent : ∀ c ∈ ((exponent.map fun power =>
        'e' :: (if power.1 then '-' else '+') :: power.2).getD [] ++ text).head?,
        c.isDigit = false ∧ c ≠ '.' := by
      cases exponent with
      | none => exact fun c hc => ⟨(htext c hc).1, (htext c hc).2.1⟩
      | some => rintro _ ⟨⟩; decide
    have hfraction : ∀ c ∈ ((fraction.map fun ds => '.' :: ds).getD [] ++ ((exponent.map fun power =>
        'e' :: (if power.1 then '-' else '+') :: power.2).getD [] ++ text)).head?,
        c.isDigit = false := by
      cases fraction with
      | none => exact fun c hc => (hexponent c hc).1
      | some => rintro _ ⟨⟩; decide
    rw [scanUnsigned, scanWhole_append hn.whole hn.lead hfraction]
    simp only [Option.bind_eq_bind, Option.bind_some]
    rw [scanFraction_append hn.fraction hexponent]
    simp only [Option.bind_some]
    rw [scanExponent_append hn.exponent htext]
    rfl
  simp only [chars, List.append_assoc]
  cases negative with
  | true => exact hunsigned
  | false =>
    obtain ⟨c, rest, hwhole⟩ := List.exists_cons_of_ne_nil hn.whole.1
    have hdigit : c.isDigit = true := hn.whole.2 c (hwhole ▸ List.mem_cons_self)
    simp only [Bool.false_eq_true, if_false, List.nil_append] at hwhole ⊢
    rw [scan.eq_2, hunsigned]
    rintro text' htext'
    rw [hwhole] at htext'
    obtain rfl := (List.cons.inj htext').1
    exact absurd hdigit (by decide)

theorem le_ofDigitChars (ds : List Char) (significand : Nat) :
    significand ≤ Nat.ofDigitChars 10 ds significand := by
  induction ds generalizing significand with
  | nil => exact Nat.le_refl _
  | cons c ds ih =>
    rw [Nat.ofDigitChars_cons]
    exact Nat.le_trans (by omega) (ih _)

/-- Digits of a number within 64 bits are all kept. -/
theorem gather_eq {ds : List Char} {significand : Nat}
    (h : Nat.ofDigitChars 10 ds significand < UInt64.size) :
    gather significand ds = (Nat.ofDigitChars 10 ds significand, []) := by
  induction ds generalizing significand with
  | nil => rfl
  | cons c ds ih =>
    rw [← List.singleton_append, Nat.ofDigitChars_append] at h ⊢
    have hfirst := Nat.lt_of_le_of_lt (le_ofDigitChars ds _) h
    rw [List.singleton_append, gather, if_pos hfirst]
    exact ih h

/-- The digits of a natural number are those of a numeral. -/
theorem areDigits_toDigits (n : Nat) : AreDigits (Nat.toDigits 10 n) :=
  ⟨Nat.toDigits_ne_nil, fun _ => Nat.isDigit_of_mem_toDigits (by decide) (by decide)⟩

/-- Only zero starts with a zero. -/
theorem head?_toDigits (n : Nat) (h : (Nat.toDigits 10 n).head? = some '0') : n = 0 := by
  induction n using Nat.strongRecOn with
  | ind n ih =>
    by_cases hn : n < 10
    · rw [Nat.toDigits_of_lt_base hn] at h
      exact Nat.digitChar_eq_zero.mp (Option.some.inj h)
    · rw [Nat.toDigits_of_base_le (by decide) (by omega), List.head?_append,
        Option.or_of_isSome (List.isSome_head?.mpr Nat.toDigits_ne_nil)] at h
      have := ih (n / 10) (by omega) h
      omega

end Numeral

namespace WireInt

/-- The numeral of an integer. -/
def numeral (n : WireInt) : Numeral where
  negative := decide (n.toInt < 0)
  whole := Nat.toDigits 10 n.toInt.natAbs
  fraction := none
  exponent := none

theorem chars_numeral (n : WireInt) : n.numeral.chars = n.chars := by
  by_cases h : 0 ≤ n.toInt
  · have hneg : ¬n.toInt < 0 := by omega
    have habs : n.toInt.natAbs = n.toInt.toNat := by omega
    simp [Numeral.chars, numeral, chars, h, hneg, habs]
  · have hneg : n.toInt < 0 := by omega
    have habs : n.toInt.natAbs = (-n.toInt).toNat := by omega
    simp [Numeral.chars, numeral, chars, h, hneg, habs]

theorem wellFormed_numeral (n : WireInt) : n.numeral.WellFormed where
  whole := Numeral.areDigits_toDigits _
  lead h := by
    rw [numeral, Numeral.head?_toDigits _ h]
    rfl
  fraction := nofun
  exponent := nofun

theorem ofInt?_toInt (n : WireInt) : ofInt? n.toInt = some n := by
  rw [ofInt?, dif_pos n.fits]

/-- The numeral of an integer denotes that integer. -/
theorem value?_numeral (n : WireInt) : n.numeral.value? = some (.integer n) := by
  have hfits := n.fits
  have hvalue : Nat.ofDigitChars 10 (Nat.toDigits 10 n.toInt.natAbs) 0 = n.toInt.natAbs :=
    Nat.ofDigitChars_ten_toDigits
  have hsize : n.toInt.natAbs < UInt64.size := by
    have : UInt64.size = 0x10000000000000000 := rfl
    omega
  have hgather : Numeral.gather 0 (Nat.toDigits 10 n.toInt.natAbs) = (n.toInt.natAbs, []) := by
    rw [Numeral.gather_eq (by rw [hvalue]; exact hsize), hvalue]
  by_cases hneg : n.toInt < 0
  · have hint : -(n.toInt.natAbs : Int) = n.toInt := by omega
    simp only [Numeral.value?, numeral, hgather, hneg, decide_true, if_true, List.isEmpty_nil,
      hint, ofInt?_toInt]
    split
    · next h _ => omega
    · next h _ => rw [Option.some.inj h]
    · next h _ => cases h
  · have hint : (n.toInt.natAbs : Int) = n.toInt := by omega
    simp [Numeral.value?, numeral, hgather, hneg, hint, ofInt?_toInt]

end WireInt

end Lifecycle.Json
