import Lifecycle.Progress
import Lifecycle.Remote

/-!
# Sessions with the remote service

A session is a computation that calls the remote service and keeps a journal of
what it did: every exchange with its purpose, every wait, and what became of each
step. A defect ends the session but not the journal. The remote service sees the
exchanges only (`Journal.exchanges`).
-/

namespace Lifecycle

open Json

/-- Why the remote service is called. -/
inductive Purpose where
  /-- The own request of a step. -/
  | mutation (step : String)
  /-- A look at the state whose favourable verdicts are counted under `tally`. -/
  | observation (tally : String)
  /-- A page of a listing. -/
  | listing
  deriving DecidableEq, Repr

/-- Why an operation is suspended at a step. -/
inductive SuspensionCause where
  /-- The step's request was turned away or stumbled and is to be sent again. -/
  | retry
  /-- The effect of the step's request does not show yet. -/
  | pending
  /-- The effect shows, and the step asked for an extra delay. -/
  | coolDown
  deriving DecidableEq, Repr

/-- One entry of a journal. -/
inductive Entry where
  /-- A call and its answer. -/
  | exchanged (purpose : Purpose) (exchange : Exchange)
  /-- A step asks for a wait in place before its request, in seconds. -/
  | waited (step : String) (seconds : UInt64)
  /-- A step is complete. -/
  | completed (step : String)
  /-- A step counts as complete because it tolerates the fault that its request met. -/
  | tolerated (step : String)
  /-- The operation is suspended at a step. -/
  | suspended (step : String) (cause : SuspensionCause) (delay : UInt64)

/-- What a session did, oldest entry first. -/
abbrev Journal := List Entry

namespace Journal

/-- The exchanges of a journal. -/
def exchanges (j : Journal) : List Exchange :=
  j.filterMap fun
    | .exchanged _ exchange => some exchange
    | _ => none

/-- The calls of a journal. -/
def calls (j : Journal) : List Call := j.exchanges.map (·.call)

/-- The longest that one wait can last: thirty years of 365 days, in seconds. -/
def longestWait : Nat := 30 * 365 * 86400

/-- Seconds waited in place; a wait that is asked to be longer than the longest ends early. -/
def waited (j : Journal) : Nat :=
  (j.map fun
    | .waited _ seconds => min seconds.toNat longestWait
    | _ => 0).foldr (· + ·) 0

end Journal

/-- A computation that calls the remote service, keeps a journal and may stop at a defect. -/
abbrev Session := ReaderT Remote (ExceptT Defect (StateM Journal))

namespace Session

variable {α β : Type}

/-- Runs a session on top of a journal; the journal that results starts with the one given. -/
def run (s : Session α) (remote : Remote) (past : Journal) : Except Defect α × Journal :=
  StateT.run (ExceptT.run (ReaderT.run s remote)) past

/-- Adds an entry to the journal. -/
def note (entry : Entry) : Session Unit := modify (· ++ [entry])

/-- Calls the remote service. -/
def exchange (purpose : Purpose) (call : Call) : Session Answer := do
  let remote ← read
  let past ← get
  let answer := remote past.exchanges call
  note (.exchanged purpose ⟨call, answer⟩)
  return answer

/-- Calls the remote service and classifies the fault it may answer with. -/
def ask (faults : FaultTable) (purpose : Purpose) (call : Call) :
    Session (Except ClassifiedFault Value) := do
  return (← exchange purpose call).mapError faults.classify

/-- Stops at a defect. -/
def orDefect (result : Except Defect α) : Session α :=
  match result with
  | .ok value => pure value
  | .error defect => throw defect

@[simp] theorem mapError_classify_ok (faults : FaultTable) (value : Value) :
    (.ok value : Answer).mapError faults.classify = .ok value := rfl

@[simp] theorem mapError_classify_error (faults : FaultTable) (fault : Fault) :
    (.error fault : Answer).mapError faults.classify = .error (faults.classify fault) := rfl

@[simp] theorem run_pure (value : α) (remote : Remote) (past : Journal) :
    run (pure value) remote past = (.ok value, past) := rfl

theorem run_bind (s : Session α) (f : α → Session β) (remote : Remote) (past : Journal) :
    run (s >>= f) remote past =
      match run s remote past with
      | (.ok value, past) => run (f value) remote past
      | (.error defect, past) => (.error defect, past) := by
  simp only [run, ReaderT.run_bind, ExceptT.run_bind, StateT.run_bind]
  rcases h : StateT.run (ExceptT.run (ReaderT.run s remote)) past with ⟨_ | _, _⟩ <;>
    rfl

theorem run_map (f : α → β) (s : Session α) (remote : Remote) (past : Journal) :
    run (f <$> s) remote past =
      match run s remote past with
      | (.ok value, past) => (.ok (f value), past)
      | (.error defect, past) => (.error defect, past) := by
  rw [← bind_pure_comp, run_bind]
  rcases run s remote past with ⟨_ | _, _⟩ <;>
    rfl

@[simp] theorem run_orDefect_ok (value : α) (remote : Remote) (past : Journal) :
    run (orDefect (.ok value)) remote past = (.ok value, past) := rfl

@[simp] theorem run_orDefect_error (defect : Defect) (remote : Remote) (past : Journal) :
    run (orDefect (.error defect) : Session α) remote past = (.error defect, past) := rfl

@[simp] theorem run_note (entry : Entry) (remote : Remote) (past : Journal) :
    run (note entry) remote past = (.ok (), past ++ [entry]) := rfl

@[simp] theorem run_exchange (purpose : Purpose) (call : Call) (remote : Remote) (past : Journal) :
    run (exchange purpose call) remote past =
      (.ok (remote past.exchanges call),
        past ++ [.exchanged purpose ⟨call, remote past.exchanges call⟩]) := rfl

@[simp] theorem run_ask (faults : FaultTable) (purpose : Purpose) (call : Call) (remote : Remote)
    (past : Journal) :
    run (ask faults purpose call) remote past =
      (.ok ((remote past.exchanges call).mapError faults.classify),
        past ++ [.exchanged purpose ⟨call, remote past.exchanges call⟩]) := rfl

end Session

end Lifecycle
