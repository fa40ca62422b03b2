import Lifecycle.Backoff
import Mathlib.Algebra.Order.Ring.Nat

/-!
# The laws of a schedule

A schedule is worked out in seconds, as natural numbers. A machine works it out in words: it adds
the delays one after the other, stops at the greatest word where a sum is too great, cuts each sum
to the timeout, and subtracts what is spent from the timeout. Both ways come to the same
(`toNat_wordElapsed`, `wordNextDelay_eq`), so no sum or difference ever leaves the range of a word.
The delays handed out add up to the time waited (`sum_handedOut`), and a schedule that is spent
stays so (`nextDelay_eq_none_of_le`).
-/

namespace Lifecycle

/-- The sum of two words, or the greatest word where the sum is too great for one. -/
def addSaturating (a b : UInt64) : UInt64 :=
  if a.toNat + b.toNat < UInt64.size then a + b else .ofNat (UInt64.size - 1)

/-- A sum of words stops at the greatest word. -/
theorem toNat_addSaturating (a b : UInt64) :
    (addSaturating a b).toNat = min (a.toNat + b.toNat) (UInt64.size - 1) := by
  unfold addSaturating
  split
  · next h =>
    rw [UInt64.toNat_add, Nat.mod_eq_of_lt h, Nat.min_eq_left (by omega)]
  · next h =>
    rw [UInt64.toNat_ofNat_of_lt' (by decide), Nat.min_eq_right (by omega)]

namespace BackoffPolicy

/-- The delay of one attempt as a word. -/
def wordDelay (policy : BackoffPolicy) (attempt : Nat) : UInt64 := max (policy.rawDelay attempt) 1

/-- The seconds waited after so many attempts as a word: delay by delay, each sum cut to the
timeout. -/
def wordElapsed (policy : BackoffPolicy) (attempts : Nat) : UInt64 :=
  (List.range attempts).foldl
    (fun waited attempt => min (addSaturating waited (policy.wordDelay attempt)) policy.timeout) 0

/-- The delay before the next attempt, with nothing but words. -/
def wordNextDelay (policy : BackoffPolicy) (attempts : Nat) : Option UInt64 :=
  let waited := policy.wordElapsed attempts
  if policy.timeout ≤ waited then none
  else some (min (policy.wordDelay attempts) (policy.timeout - waited))

/-- The delays handed out for the first so many attempts. -/
def handedOut (policy : BackoffPolicy) (attempts : Nat) : List UInt64 :=
  (List.range attempts).filterMap policy.nextDelay

/-- The greater of two words, as a number. -/
private theorem toNat_max_word (a b : UInt64) : (max a b).toNat = max a.toNat b.toNat := by
  rw [show max a b = if a ≤ b then b else a from rfl]
  split
  · next h => rw [Nat.max_eq_right (UInt64.le_iff_toNat_le.mp h)]
  · next h =>
    rw [UInt64.le_iff_toNat_le] at h
    rw [Nat.max_eq_left (by omega)]

/-- The lesser of two words, as a number. -/
private theorem toNat_min_word (a b : UInt64) : (min a b).toNat = min a.toNat b.toNat := by
  rw [show min a b = if a ≤ b then a else b from rfl]
  split
  · next h => rw [Nat.min_eq_left (UInt64.le_iff_toNat_le.mp h)]
  · next h =>
    rw [UInt64.le_iff_toNat_le] at h
    rw [Nat.min_eq_right (by omega)]

/-- The delay of an attempt fits in a word. -/
theorem toNat_wordDelay (policy : BackoffPolicy) (attempt : Nat) :
    (policy.wordDelay attempt).toNat = policy.delay attempt := by
  rw [wordDelay, toNat_max_word, delay, Nat.max_comm]
  rfl

@[simp] theorem elapsed_zero (policy : BackoffPolicy) : policy.elapsed 0 = 0 := by
  rw [elapsed, total_zero, Nat.min_zero]

/-- One more attempt adds its delay to the time waited, as far as the timeout allows. -/
theorem elapsed_succ_eq_min (policy : BackoffPolicy) (attempts : Nat) :
    policy.elapsed (attempts + 1) =
      min policy.timeout.toNat (policy.elapsed attempts + policy.delay attempts) := by
  unfold elapsed
  rw [total_succ]
  omega

/-- Cutting each sum comes to the same as cutting the whole sum, and stopping at the greatest word
does not matter, since the timeout is no greater. -/
theorem toNat_wordElapsed (policy : BackoffPolicy) (attempts : Nat) :
    (policy.wordElapsed attempts).toNat = policy.elapsed attempts := by
  induction attempts with
  | zero => rw [elapsed_zero]; rfl
  | succ attempts ih =>
    have htimeout := policy.timeout.toNat_lt
    have hstep : policy.wordElapsed (attempts + 1) =
        min (addSaturating (policy.wordElapsed attempts) (policy.wordDelay attempts))
          policy.timeout := by
      rw [wordElapsed, List.range_succ, List.foldl_append]
      rfl
    rw [hstep, toNat_min_word, toNat_addSaturating, ih, toNat_wordDelay, elapsed_succ_eq_min,
      Nat.min_comm]
    have hsize : UInt64.size = 2 ^ 64 := rfl
    omega

/-- A schedule in words hands out the same delays. -/
theorem wordNextDelay_eq (policy : BackoffPolicy) (attempts : Nat) :
    policy.wordNextDelay attempts = policy.nextDelay attempts := by
  have htimeout := policy.timeout.toNat_lt
  have hwaited := policy.toNat_wordElapsed attempts
  have hle := policy.elapsed_le_timeout attempts
  simp only [wordNextDelay, nextDelay, UInt64.le_iff_toNat_le, hwaited]
  split
  · rfl
  · next h =>
    have hsub : (policy.timeout - policy.wordElapsed attempts).toNat =
        policy.timeout.toNat - policy.elapsed attempts := by
      rw [UInt64.toNat_sub_of_le _ _ (UInt64.le_iff_toNat_le.mpr (hwaited ▸ hle)), hwaited]
    refine congrArg some (UInt64.toNat_inj.mp ?_)
    rw [toNat_min_word, toNat_wordDelay, hsub, UInt64.toNat_ofNat', Nat.mod_eq_of_lt (by omega)]

/-- More delays take no less time. -/
theorem monotone_total (policy : BackoffPolicy) : Monotone policy.total := by
  refine monotone_nat_of_le_succ fun attempts => ?_
  rw [total_succ]
  exact Nat.le_add_right _ _

/-- Each attempt takes a second at least, until the timeout is reached. -/
theorem min_le_elapsed (policy : BackoffPolicy) (attempts : Nat) :
    min attempts policy.timeout.toNat ≤ policy.elapsed attempts := by
  have htotal := policy.le_total attempts
  unfold elapsed
  omega

/-- A delay handed out is a second at least, and no longer than the attempt asks for. -/
theorem nextDelay_bounds (policy : BackoffPolicy) {attempts : Nat} {d : UInt64}
    (h : policy.nextDelay attempts = some d) : 1 ≤ d.toNat ∧ d.toNat ≤ policy.delay attempts := by
  have hone := policy.one_le_delay attempts
  have hnext := policy.elapsed_succ h
  have hlt := (policy.elapsed_lt_timeout_iff attempts).mpr ⟨d, h⟩
  rw [elapsed_succ_eq_min] at hnext
  omega

/-- A schedule that is spent hands out no delay later. -/
theorem nextDelay_eq_none_of_le (policy : BackoffPolicy) {attempts later : Nat}
    (h : policy.nextDelay attempts = none) (hle : attempts ≤ later) :
    policy.nextDelay later = none := by
  have htotal := policy.monotone_total hle
  rw [nextDelay_eq_none_iff] at *
  unfold elapsed at *
  omega

/-- The delays handed out add up to the time waited. -/
theorem sum_handedOut (policy : BackoffPolicy) (attempts : Nat) :
    ((policy.handedOut attempts).map (·.toNat)).sum = policy.elapsed attempts := by
  induction attempts with
  | zero => rw [elapsed_zero]; rfl
  | succ attempts ih =>
    rw [handedOut, List.range_succ, List.filterMap_append, List.map_append, List.sum_append,
      ← handedOut, ih]
    cases hnext : policy.nextDelay attempts with
    | some d => simp [hnext, policy.elapsed_succ hnext]
    | none =>
      have hspent := policy.nextDelay_eq_none_of_le hnext (Nat.le_succ attempts)
      rw [nextDelay_eq_none_iff] at hnext hspent
      simp [(policy.nextDelay_eq_none_iff attempts).mpr hnext, hnext, hspent]

/-- However its delays come about, a schedule that is worked out in words keeps to the natural
numbers, so no sum or difference leaves the range of a word. After so many attempts at least that
many seconds are spent, or the whole timeout, and never more than it. As long as it is not spent,
the next delay is a second at least and no longer than the attempt asks for, and it is exactly what
one more attempt adds. So the delays handed out add up to the time waited, and once it is spent no
delay is handed out any more, which is so after as many attempts as the timeout has seconds. -/
theorem schedule_laws (policy : BackoffPolicy) (attempts : Nat) :
    ((policy.wordDelay attempts).toNat = policy.delay attempts ∧
      (policy.wordElapsed attempts).toNat = policy.elapsed attempts ∧
      policy.wordNextDelay attempts = policy.nextDelay attempts) ∧
    (min attempts policy.timeout.toNat ≤ policy.elapsed attempts ∧
      policy.elapsed attempts ≤ policy.timeout.toNat) ∧
    (policy.nextDelay attempts = none ↔ policy.elapsed attempts = policy.timeout.toNat) ∧
    (∀ d, policy.nextDelay attempts = some d →
      1 ≤ d.toNat ∧ d.toNat ≤ policy.delay attempts ∧
        policy.elapsed (attempts + 1) = policy.elapsed attempts + d.toNat ∧
        policy.elapsed attempts + d.toNat < UInt64.size) ∧
    ((policy.handedOut attempts).map (·.toNat)).sum = policy.elapsed attempts ∧
    (policy.nextDelay attempts = none →
      ∀ later, attempts ≤ later → policy.nextDelay later = none) ∧
    (policy.timeout.toNat ≤ attempts → policy.nextDelay attempts = none) := by
  refine ⟨⟨policy.toNat_wordDelay attempts, policy.toNat_wordElapsed attempts,
    policy.wordNextDelay_eq attempts⟩, ⟨policy.min_le_elapsed attempts,
    policy.elapsed_le_timeout attempts⟩, policy.nextDelay_eq_none_iff attempts, ?_,
    policy.sum_handedOut attempts, fun h later => policy.nextDelay_eq_none_of_le h, ?_⟩
  · intro d hnext
    obtain ⟨hone, hdelay⟩ := policy.nextDelay_bounds hnext
    have hsucc := policy.elapsed_succ hnext
    refine ⟨hone, hdelay, hsucc, ?_⟩
    rw [← hsucc]
    exact Nat.lt_of_le_of_lt (policy.elapsed_le_timeout _) policy.timeout.toNat_lt
  · intro hle
    have hleast := policy.min_le_elapsed attempts
    have hmost := policy.elapsed_le_timeout attempts
    rw [nextDelay_eq_none_iff]
    omega

/-- Three delays of thirty seconds leave ten of a hundred, and then nothing, for good. -/
theorem constant_thirty_spent :
    (constant 30 100).nextDelay 3 = some 10 ∧ (constant 30 100).elapsed 4 = 90 + 10 ∧
      (constant 30 100).nextDelay 4 = none ∧ (constant 30 100).nextDelay 4000000000 = none := by
  have hlast : (constant 30 100).nextDelay 3 = some 10 := by decide
  have hspent : (constant 30 100).nextDelay 4 = none := by decide
  have hadds := ((schedule_laws (constant 30 100) 3).2.2.2.1 10 hlast).2.2.1
  exact ⟨hlast, hadds, hspent,
    (schedule_laws (constant 30 100) 4).2.2.2.2.2.1 hspent _ (by decide)⟩

end BackoffPolicy

end Lifecycle
