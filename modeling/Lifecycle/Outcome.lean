import Lifecycle.Fault
import Lifecycle.Progress

/-!
# Outcomes of a pass

Every pass over a chain ends in exactly one of three ways: the operation is
finished, it has failed, or it is suspended and wants to be taken up again.
-/

namespace Lifecycle

/-- The result of one pass. -/
inductive Outcome (M : Type) where
  /-- The operation is finished; a deletion leaves no model. -/
  | success (model : Option M)
  /-- The operation has failed. -/
  | failed (kind : FailureKind) (message : String)
  /-- Come back with this record, no sooner than after the delay in seconds. -/
  | inProgress (delay : UInt64) (progress : ProgressRecord M)

namespace Outcome

variable {M : Type}

/-- The failure that a fault amounts to, with the message of the remote service. -/
def ofFault (f : ClassifiedFault) : Outcome M := .failed f.kind f.message

/-- Whether the operation is over. -/
def isTerminal : Outcome M → Bool
  | .inProgress .. => false
  | _ => true

/-- The kind of failure, when the operation has failed. -/
def failureKind? : Outcome M → Option FailureKind
  | .failed kind _ => some kind
  | _ => none

/-- The record to come back with, when the operation is suspended. -/
def progress? : Outcome M → Option (ProgressRecord M)
  | .inProgress _ progress => some progress
  | _ => none

/-- The outcome in one line. -/
def display : Outcome M → String
  | .success _ => "success"
  | .failed kind message => "failed (" ++ kind.name ++ "): " ++ message
  | .inProgress delay _ => "in progress (retry in " ++ toString delay.toNat ++ "s)"

end Outcome

end Lifecycle
