import Lifecycle.Backoff
import Lifecycle.Poll

/-!
# Steps

A step is one conditional request on the remote service together with all that
surrounds it: when it applies, what to keep of the answer, how to tell that its
effect has set in, and which faults it can live with. Only the name and the
request are a must; every other part has a plain default.
-/

namespace Lifecycle

open Json

/-- The desired state and, for an update, the state it replaces. -/
structure Target (M : Type) where
  /-- What is wanted. -/
  desired : M
  /-- What was there before. -/
  previous : Option M := none

/-- Whether there is no state to replace. -/
def Target.isCreate {M : Type} (t : Target M) : Bool := t.previous.isNone

/-- How a step makes sure that its request took effect. -/
structure Stabilization where
  /-- How the state is looked at. -/
  probe : Probe
  /-- Favourable verdicts in a row before the state is trusted. -/
  minObservations : UInt32 := 1
  /-- A schedule in place of that of the chain. -/
  policy : Option BackoffPolicy := none

/-- What follows once the effect of a step has set in. -/
inductive Completion where
  /-- Go on with the next step. -/
  | advance
  /-- Come back to this step once more after a delay in seconds. -/
  | coolDown (seconds : UInt64)
  deriving DecidableEq, Repr

/-- One conditional request with what surrounds it. -/
structure Step (M : Type) where
  /-- Name of the step, under which the record keeps its marks. -/
  name : String
  /-- Whether the step applies. -/
  shouldRun : Target M → ProgressRecord M → Bool := fun _ _ => true
  /-- The request of the step. -/
  request : Target M → ProgressRecord M → Except Defect RemoteRequest
  /-- What the record keeps of the answer to the request. -/
  capture : Value → ProgressRecord M → ProgressRecord M := fun _ r => r
  /-- How to make sure that the request took effect, if there is anything to wait for. -/
  stabilization : Target M → ProgressRecord M → Except Defect (Option Stabilization) :=
    fun _ _ => .ok none
  /-- Whether an observed state shows the effect. -/
  isStable : Observation → Target M → Bool := fun observation _ => observation.isPresent
  /-- What the record keeps of the stable state, and what follows. -/
  onComplete : Option Value → ProgressRecord M → Completion × ProgressRecord M :=
    fun _ r => (.advance, r)
  /-- Seconds to wait in place before the request is sent. -/
  settle : ProgressRecord M → Option UInt64 := fun _ => none
  /-- Faults the step can live with; it then counts as complete. -/
  suppress : ClassifiedFault → Target M → Bool := fun _ _ => false

namespace Step

/-- Counter of favourable verdicts in a row. -/
def tallyKey (step : String) : String := step ++ "-stabilize-attempts"

/-- Counter of suspensions while the effect does not show. -/
def pollsKey (step : String) : String := step ++ "-polls"

/-- Counter of suspensions before the request is sent again. -/
def throttlesKey (step : String) : String := step ++ "-throttles"

@[simp] theorem tallyKey_inj {a b : String} : tallyKey a = tallyKey b ↔ a = b := by
  simp [tallyKey]

@[simp] theorem pollsKey_inj {a b : String} : pollsKey a = pollsKey b ↔ a = b := by
  simp [pollsKey]

@[simp] theorem throttlesKey_inj {a b : String} : throttlesKey a = throttlesKey b ↔ a = b := by
  simp [throttlesKey]

/-- Counters of different kinds never share a key, whatever the steps are called. -/
theorem tallyKey_ne_pollsKey (a b : String) : tallyKey a ≠ pollsKey b := by
  intro h
  have hends := congrArg (fun s => s.toList.reverse) h
  simp [tallyKey, pollsKey] at hends

theorem tallyKey_ne_throttlesKey (a b : String) : tallyKey a ≠ throttlesKey b := by
  intro h
  have hends := congrArg (fun s => s.toList.reverse) h
  simp [tallyKey, throttlesKey] at hends

theorem pollsKey_ne_throttlesKey (a b : String) : pollsKey a ≠ throttlesKey b := by
  intro h
  have hends := congrArg (fun s => s.toList.reverse) h
  simp [pollsKey, throttlesKey] at hends

end Step

end Lifecycle
