import Lifecycle.Outcome
import Lifecycle.Step

/-!
# Step chains

A chain is the ordered list of steps that make up one operation. Every pass walks
it from the top: complete steps and steps that do not apply are passed over, the
first step that has to wait suspends the operation, and the record it leaves says
where the next pass takes up. A step's request is sent until it is accepted and
never again; after that a pass only looks whether its effect has set in.
-/

namespace Lifecycle

open Json

/-- What a chain reports once all its steps are complete. -/
inductive Terminal where
  /-- The model as known by then. -/
  | model
  /-- That the resource is gone. -/
  | deleted
  deriving DecidableEq, Repr

/-- The name of the report. -/
def Terminal.name : Terminal → String
  | .model => "Model"
  | .deleted => "Deleted"

/-- Schedules shared by the steps of a chain, and what it reports in the end. -/
structure ChainConfig where
  /-- Schedule of looks at the state. -/
  stabilization : BackoffPolicy := .constant 30 10800
  /-- Schedule of requests sent again. -/
  throttling : BackoffPolicy := .doubling 5 60 900
  /-- What is reported in the end. -/
  terminal : Terminal := .model

/-- The same schedules for a chain that deletes. -/
def ChainConfig.deleting (c : ChainConfig) : ChainConfig := { c with terminal := .deleted }

/-- The ordered steps of one operation. -/
structure Chain (M : Type) where
  /-- Name of the operation. -/
  operation : String
  /-- Schedules and report. -/
  config : ChainConfig
  /-- The steps in order. -/
  steps : List (Step M)

namespace Chain

variable {M : Type}

/-- What became of a step's request. -/
inductive Issue (M : Type) where
  /-- It is accepted, in this pass or an earlier one. -/
  | accepted (progress : ProgressRecord M)
  /-- It met a fault that the step can live with. -/
  | tolerated
  /-- The pass ends here. -/
  | halted (outcome : Outcome M)

/-- Suspends an operation at a step, or ends it when the schedule has no further delay. The counter
holds how many delays of the schedule are spent. -/
def suspend (step : String) (cause : SuspensionCause) (policy : BackoffPolicy) (counter : String)
    (r : ProgressRecord M) (exhausted : Outcome M) : Session (Outcome M) :=
  match policy.nextDelay (r.counter counter).toNat with
  | some delay => do
    Session.note (.suspended step cause delay)
    return .inProgress delay (r.increment counter)
  | none => return exhausted

/-- Sends the request of a step, after the wait it asks for. A request that was turned away or
stumbled is sent again by a later pass. -/
def issue (faults : FaultTable) (config : ChainConfig) (target : Target M) (step : Step M)
    (r : ProgressRecord M) : Session (Issue M) := do
  if let some seconds := step.settle r then
    Session.note (.waited step.name seconds)
  let request ← Session.orDefect (step.request target r)
  match ← Session.ask faults (.mutation step.name) (.invoke request) with
  | .ok response =>
    let r := (r.markInvoked step.name).resetCounter (Step.throttlesKey step.name)
    return .accepted (step.capture response r)
  | .error fault =>
    if step.suppress fault target then
      Session.note (.tolerated step.name)
      return .tolerated
    else if fault.isRetryable then
      .halted <$> suspend step.name .retry config.throttling (Step.throttlesKey step.name) r
        (.failed .generalServiceException fault.message)
    else return .halted (.ofFault fault)

/-- What ends an operation whose effect did not show in time. -/
def notStabilized (step : String) (policy : BackoffPolicy) : Outcome M :=
  .failed .notStabilized
    (step ++ " did not stabilize within " ++ toString policy.timeout.toNat ++ "s")

/-- Looks once whether the effect of a step's request has set in; the state seen and the record,
or the outcome that ends the pass. -/
def stabilize (faults : FaultTable) (config : ChainConfig) (target : Target M) (step : Step M)
    (r : ProgressRecord M) : Session (Except (Outcome M) (Option Value × ProgressRecord M)) := do
  match ← Session.orDefect (step.stabilization target r) with
  | none => return .ok (none, r)
  | some s =>
    match ← Poll.once faults s.probe (Step.tallyKey step.name) s.minObservations
        (step.isStable · target) r with
    | .error fault => return .error (.ofFault fault)
    | .ok (.stable observed, r) => return .ok (observed, r)
    | .ok (.pending, r) =>
      let policy := s.policy.getD config.stabilization
      .error <$> suspend step.name .pending policy (Step.pollsKey step.name) r
        (notStabilized step.name policy)

/-- Completes a step whose effect has set in; a cool-down it asks for is served once. -/
def complete (step : Step M) (observed : Option Value) (r : ProgressRecord M) :
    Session (Except (Outcome M) (ProgressRecord M)) := do
  match step.onComplete observed r with
  | (.coolDown delay, r) =>
    if r.isCooled step.name then
      Session.note (.completed step.name)
      return .ok (r.markDone step.name)
    else
      Session.note (.suspended step.name .coolDown delay)
      return .error (.inProgress delay (r.markCooled step.name))
  | (.advance, r) =>
    Session.note (.completed step.name)
    return .ok (r.markDone step.name)

/-- Takes a step that applies and is not complete as far as it goes: the record of a complete step,
or the outcome that ends the pass. -/
def visit (faults : FaultTable) (config : ChainConfig) (target : Target M) (step : Step M)
    (r : ProgressRecord M) : Session (Except (Outcome M) (ProgressRecord M)) := do
  let issued ←
    if r.isInvoked step.name then pure (.accepted r) else issue faults config target step r
  match issued with
  | .halted outcome => return .error outcome
  | .tolerated => return .ok (r.markDone step.name)
  | .accepted r =>
    match ← stabilize faults config target step r with
    | .error outcome => return .error outcome
    | .ok (observed, r) => complete step observed r

/-- Walks over steps in order until one ends the pass. -/
def walk (faults : FaultTable) (config : ChainConfig) (target : Target M) :
    List (Step M) → ProgressRecord M → Session (Outcome M)
  | [], r =>
    match config.terminal with
    | .model => return .success r.model
    | .deleted => return .success none
  | step :: steps, r => do
    if r.isDone step.name || !step.shouldRun target r then
      walk faults config target steps r
    else
      match ← visit faults config target step r with
      | .error outcome => return outcome
      | .ok r => walk faults config target steps r

/-- The record a pass starts from: an operation that has no model yet starts from the desired
one. -/
def seed (target : Target M) (r : ProgressRecord M) : ProgressRecord M :=
  match r.model with
  | some _ => r
  | none => r.withModel target.desired

/-- One pass over the chain. -/
def pass (c : Chain M) (faults : FaultTable) (target : Target M) (r : ProgressRecord M) :
    Session (Outcome M) :=
  walk faults c.config target c.steps (seed target r)

/-- One pass as it went: how it ended and what it did. -/
structure PassReport (M : Type) where
  /-- The outcome, or the defect that the pass ran into. -/
  result : Except Defect (Outcome M)
  /-- What the pass did. -/
  journal : Journal

/-- Passes over the chain, each taking up the record the one before it left, until the operation is
over or so many passes are made. -/
def passes (c : Chain M) (faults : FaultTable) (target : Target M) (remote : Remote) :
    Nat → ProgressRecord M → Journal → List (PassReport M)
  | 0, _, _ => []
  | limit + 1, r, past =>
    let (result, journal) := (c.pass faults target r).run remote past
    let report := ⟨result, journal.drop past.length⟩
    match result with
    | .ok (.inProgress _ r) => report :: c.passes faults target remote limit r journal
    | _ => [report]

end Chain

end Lifecycle
