import Lifecycle.Json.Record

/-!
# Backoff schedules

A policy maps the number of attempts already made to the delay before the next
one, in whole seconds, and gives up once the delays handed out add up to its
timeout. Nothing is remembered but the attempt count: the time spent is the sum
of the delays of the attempts so far. The last delay is cut so that the sum meets
the timeout exactly (`elapsed_succ`, `nextDelay_eq_none_iff`).
-/

namespace Lifecycle

/-- A delay schedule with an overall timeout, all in seconds. -/
inductive BackoffPolicy where
  /-- The same delay before every attempt. -/
  | constant (delay timeout : UInt64)
  /-- Delays that grow by a factor from attempt to attempt, up to a greatest one. -/
  | exponential (initial greatest : UInt64) (multiplier : Float) (timeout : UInt64)

namespace BackoffPolicy

/-- Growth factor of a schedule that names none. -/
def defaultMultiplier : Float := 2.0

/-- An exponential schedule that doubles its delays. -/
def doubling (initial greatest timeout : UInt64) : BackoffPolicy :=
  .exponential initial greatest defaultMultiplier timeout

/-- Same schedule, with floats compared by value. -/
protected def beq : BackoffPolicy → BackoffPolicy → Bool
  | .constant d t, .constant d' t' => d == d' && t == t'
  | .exponential i g m t, .exponential i' g' m' t' => i == i' && g == g' && m == m' && t == t'
  | _, _ => false

instance : BEq BackoffPolicy := ⟨BackoffPolicy.beq⟩

/-- Seconds after which the schedule gives up. -/
def timeout : BackoffPolicy → UInt64
  | .constant _ t => t
  | .exponential _ _ _ t => t

/-- Raises a base to the power with the given bits, least significant first, by repeated squaring:
every set bit multiplies the current square into the result. -/
def powerOfBits (base result : Float) : List Bool → Float
  | [] => result
  | bit :: bits => powerOfBits (base * base) (if bit then result * base else result) bits

/-- A power with an exponent below sixty-four. -/
def power (base : Float) (exponent : Nat) : Float :=
  powerOfBits base 1 ((List.range 6).map exponent.testBit)

/-- From this attempt on the delay no longer changes. -/
def settledAttempt : Nat := 63

/-- The delay of one attempt before the lower bound of one second; a product that is not a number
counts as the greatest delay. -/
def rawDelay (policy : BackoffPolicy) (attempt : Nat) : UInt64 :=
  match policy with
  | .constant d _ => d
  | .exponential initial greatest multiplier _ =>
    let delay := initial.toFloat * power multiplier (min attempt settledAttempt)
    let bound := greatest.toFloat
    (if delay ≤ bound then delay else bound).toUInt64

/-- The delay of one attempt, counted from zero; never below one second. -/
def delay (policy : BackoffPolicy) (attempt : Nat) : Nat :=
  max 1 (policy.rawDelay attempt).toNat

/-- The sum of the delays of the first so many attempts. -/
def total (policy : BackoffPolicy) (attempts : Nat) : Nat :=
  ((List.range (min attempts settledAttempt)).map policy.delay).foldl (· + ·) 0
    + (attempts - settledAttempt) * policy.delay settledAttempt

/-- Seconds waited after so many attempts; the timeout is the most one can wait. -/
def elapsed (policy : BackoffPolicy) (attempts : Nat) : Nat :=
  min policy.timeout.toNat (policy.total attempts)

/-- The delay before the next attempt, cut to what the timeout leaves; none once it is spent. -/
def nextDelay (policy : BackoffPolicy) (attempts : Nat) : Option UInt64 :=
  let spent := policy.elapsed attempts
  if policy.timeout.toNat ≤ spent then none
  else some (UInt64.ofNat (min (policy.delay attempts) (policy.timeout.toNat - spent)))

theorem one_le_delay (policy : BackoffPolicy) (attempt : Nat) : 1 ≤ policy.delay attempt :=
  Nat.le_max_left ..

theorem delay_of_settled (policy : BackoffPolicy) {attempt : Nat} (h : settledAttempt ≤ attempt) :
    policy.delay attempt = policy.delay settledAttempt := by
  cases policy with
  | constant => rfl
  | exponential => simp only [delay, rawDelay, Nat.min_eq_right h, Nat.min_self]

@[simp] theorem total_zero (policy : BackoffPolicy) : policy.total 0 = 0 := by
  simp [total]

/-- One more attempt adds its delay to the sum. -/
theorem total_succ (policy : BackoffPolicy) (attempts : Nat) :
    policy.total (attempts + 1) = policy.total attempts + policy.delay attempts := by
  unfold total
  by_cases h : attempts < settledAttempt
  · rw [Nat.min_eq_left (by omega), Nat.min_eq_left (by omega), List.range_succ]
    have h0 : attempts + 1 - settledAttempt = 0 := by omega
    have h1 : attempts - settledAttempt = 0 := by omega
    simp [h0, h1]
  · have hs : settledAttempt ≤ attempts := by omega
    rw [Nat.min_eq_right (by omega), Nat.min_eq_right hs, delay_of_settled policy hs]
    have h0 : attempts + 1 - settledAttempt = attempts - settledAttempt + 1 := by omega
    rw [h0, Nat.succ_mul]
    omega

/-- Each attempt takes a second at least. -/
theorem le_total (policy : BackoffPolicy) (attempts : Nat) : attempts ≤ policy.total attempts := by
  induction attempts with
  | zero => exact Nat.zero_le _
  | succ attempts ih =>
    have hdelay := policy.one_le_delay attempts
    rw [total_succ]
    omega

theorem elapsed_le_timeout (policy : BackoffPolicy) (attempts : Nat) :
    policy.elapsed attempts ≤ policy.timeout.toNat :=
  Nat.min_le_left ..

theorem nextDelay_eq_none_iff (policy : BackoffPolicy) (attempts : Nat) :
    policy.nextDelay attempts = none ↔ policy.elapsed attempts = policy.timeout.toNat := by
  have h := policy.elapsed_le_timeout attempts
  simp only [nextDelay]
  split
  · simp only [true_iff]
    omega
  · simp only [reduceCtorEq, false_iff]
    omega

/-- A delay is handed out as long as the time is not used up. -/
theorem elapsed_lt_timeout_iff (policy : BackoffPolicy) (attempts : Nat) :
    policy.elapsed attempts < policy.timeout.toNat ↔
      ∃ delay, policy.nextDelay attempts = some delay := by
  rw [← Option.ne_none_iff_exists', ne_eq, nextDelay_eq_none_iff]
  exact ⟨Nat.ne_of_lt, Nat.lt_of_le_of_ne (policy.elapsed_le_timeout attempts)⟩

/-- A delay is handed out only while fewer attempts were made than the timeout has seconds. -/
theorem lt_timeout_of_nextDelay (policy : BackoffPolicy) {attempts : Nat} {d : UInt64}
    (h : policy.nextDelay attempts = some d) : attempts < policy.timeout.toNat := by
  refine Nat.lt_of_not_le ?_
  intro hge
  have htotal := policy.le_total attempts
  have hspent : policy.elapsed attempts = policy.timeout.toNat := by
    unfold elapsed
    omega
  rw [(policy.nextDelay_eq_none_iff attempts).mpr hspent] at h
  cases h

/-- A delay handed out is exactly the time that one more attempt adds. -/
theorem elapsed_succ (policy : BackoffPolicy) {attempts : Nat} {d : UInt64}
    (h : policy.nextDelay attempts = some d) :
    policy.elapsed (attempts + 1) = policy.elapsed attempts + d.toNat := by
  have hlt := policy.timeout.toNat_lt
  simp only [nextDelay] at h
  split at h
  · exact absurd h (by simp)
  · have hd := Option.some.inj h
    rw [← hd, UInt64.toNat_ofNat', Nat.mod_eq_of_lt (by omega)]
    unfold elapsed at *
    rw [total_succ]
    omega

open Json

/-- Wire name of each kind of schedule. -/
def kind : BackoffPolicy → String
  | .constant .. => "constant"
  | .exponential .. => "exponential"

/-- Members of the policies' records besides the kind, by kind. -/
def memberNames (kind : String) : Option (List String) :=
  if kind = "constant" then some ["delay_seconds", "timeout_seconds"]
  else if kind = "exponential" then
    some ["initial_delay_seconds", "max_delay_seconds", "multiplier", "timeout_seconds"]
  else none

/-- The record of a policy, its kind first. -/
def encode : BackoffPolicy → Document
  | .constant d t =>
    .object [("kind", .string "constant"), ("delay_seconds", .ofWord d), ("timeout_seconds", .ofWord t)]
  | .exponential i g m t =>
    .object [("kind", .string "exponential"), ("initial_delay_seconds", .ofWord i),
      ("max_delay_seconds", .ofWord g), ("multiplier", .ofFloat m), ("timeout_seconds", .ofWord t)]

/-- Builds a policy of the given kind from its members. -/
def ofRecord? (kind : String) (r : Record) : Option BackoffPolicy :=
  if kind = "constant" then do
    return .constant (← r.required "delay_seconds" .word64) (← r.required "timeout_seconds" .word64)
  else if kind = "exponential" then do
    return .exponential (← r.required "initial_delay_seconds" .word64)
      (← r.required "max_delay_seconds" .word64)
      (← r.defaulted "multiplier" defaultMultiplier .float)
      (← r.required "timeout_seconds" .word64)
  else none

/-- Builds a policy from its members other than the kind, by name. -/
def ofMembers? (kind : String) (levels : Nat) (members : List (String × Document)) :
    Option BackoffPolicy := do
  let r ← Record.ofMembers? (← memberNames kind) levels members
  ofRecord? kind r

/-- Builds a policy from its members other than the kind, in order. -/
def ofItems? (kind : String) (levels : Nat) (items : List Document) : Option BackoffPolicy := do
  let r ← Record.ofItems? (← memberNames kind) levels items
  ofRecord? kind r

/-- Reads a policy. The kind may stand anywhere among named members, but first in a list; all
members are read before the kind is known, so even unknown ones must be readable values. -/
def decode : Decoder BackoffPolicy
  | levels + 1, .object members => do
    let _ ← Document.toMembers? levels members
    let [.string kind] := Record.under "kind" members | none
    ofMembers? kind levels (members.filter (·.1 ≠ "kind"))
  | levels + 1, .array (.string kind :: items) => do
    let _ ← Document.toItems? levels items
    ofItems? kind levels items
  | _, _ => none

end BackoffPolicy

end Lifecycle
