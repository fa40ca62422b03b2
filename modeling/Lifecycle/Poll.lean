import Lifecycle.Session

/-!
# Polling for a stable state

One poll makes one call and folds the verdict on what it saw into a tally kept in
the progress record. Enough favourable verdicts in a row make the state stable; an
unfavourable one starts the tally over. A fault that says "not there" is a state to
be judged, a passing fault is an unfavourable verdict, and any other fault is the
result of the poll, which then leaves the record alone.
-/

namespace Lifecycle

open Json

/-- How the state of a resource is looked at. -/
inductive Probe where
  /-- A look at the resource itself. -/
  | describe (resource : String)
  /-- A call of an operation. -/
  | invoke (request : RemoteRequest)

/-- The call a probe makes. -/
def Probe.call : Probe → Call
  | .describe resource => .describe resource
  | .invoke request => .invoke request

/-- The remote state as a predicate gets to see it. -/
inductive Observation where
  /-- The service described a state. -/
  | present (state : Value)
  /-- The service knows no such resource. -/
  | absent

/-- Whether the service described a state. -/
def Observation.isPresent : Observation → Bool
  | .present _ => true
  | .absent => false

/-- The result of one poll. -/
inductive Poll where
  /-- Enough favourable verdicts in a row; the state seen last, unless the resource is absent. -/
  | stable (observed : Option Value)
  /-- Not yet. -/
  | pending

namespace Poll

/-- The verdict on an answer and the state it shows, or the fault that ends the poll. -/
def judge (predicate : Observation → Bool) :
    Except ClassifiedFault Value → Except ClassifiedFault (Bool × Option Value)
  | .ok state => .ok (predicate (.present state), some state)
  | .error fault =>
    if fault.isNotFound then .ok (predicate .absent, none)
    else if fault.isRetryable then .ok (false, none)
    else .error fault

variable {M : Type}

/-- Folds a verdict into the tally: `least` favourable verdicts in a row, and at least one, make the
state stable. -/
def tallyUp (tally : String) (least : UInt32) (favourable : Bool) (observed : Option Value)
    (r : ProgressRecord M) : Poll × ProgressRecord M :=
  if favourable then
    let r := r.increment tally
    if r.counter tally < max least 1 then (.pending, r) else (.stable observed, r)
  else (.pending, r.resetCounter tally)

/-- Looks once and folds the verdict into the tally. -/
def once (faults : FaultTable) (probe : Probe) (tally : String) (least : UInt32)
    (predicate : Observation → Bool) (r : ProgressRecord M) :
    Session (Except ClassifiedFault (Poll × ProgressRecord M)) := do
  let answer ← Session.ask faults (.observation tally) probe.call
  return (judge predicate answer).map fun (favourable, observed) =>
    tallyUp tally least favourable observed r

/-- A favourable verdict that makes the row long enough. -/
theorem tallyUp_of_le {tally : String} {least : UInt32} {r : ProgressRecord M}
    (h : max least 1 ≤ (r.increment tally).counter tally) (observed : Option Value) :
    tallyUp tally least true observed r = (.stable observed, r.increment tally) := by
  simp only [tallyUp, if_true, if_neg (UInt32.not_lt.mpr h)]

/-- A verdict that leaves the row too short, or breaks it. -/
theorem tallyUp_of_lt {tally : String} {least : UInt32} {favourable : Bool} {r : ProgressRecord M}
    (h : favourable = true → (r.increment tally).counter tally < max least 1)
    (observed : Option Value) :
    tallyUp tally least favourable observed r =
      (.pending, if favourable then r.increment tally else r.resetCounter tally) := by
  cases favourable with
  | false => rfl
  | true => simp only [tallyUp, if_true, if_pos (h rfl)]

@[simp] theorem run_once (faults : FaultTable) (probe : Probe) (tally : String) (least : UInt32)
    (predicate : Observation → Bool) (r : ProgressRecord M) (remote : Remote) (past : Journal) :
    (once faults probe tally least predicate r).run remote past =
      (.ok ((judge predicate ((remote past.exchanges probe.call).mapError faults.classify)).map
          fun (favourable, observed) => tallyUp tally least favourable observed r),
        past ++ [.exchanged (.observation tally) ⟨probe.call, remote past.exchanges probe.call⟩]) :=
  rfl

end Poll

end Lifecycle
