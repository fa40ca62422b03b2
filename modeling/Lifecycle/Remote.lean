import Lifecycle.Fault

/-!
# The remote service

A call is either a named operation with a payload or a look at one resource. The
service itself is a function: it answers a call in the light of all exchanges
before it, so every behaviour, however capricious, is one such function.
-/

namespace Lifecycle

open Json

/-- A named operation with its payload. -/
structure RemoteRequest where
  /-- Name of the operation. -/
  operation : String
  /-- Payload of the call. -/
  payload : Value

namespace RemoteRequest

/-- The request as a record. -/
def encode (r : RemoteRequest) : Document :=
  .object [("operation", .string r.operation), ("payload", .ofValue r.payload)]

/-- Reads a request. -/
def decode : Decoder RemoteRequest :=
  .record ["operation", "payload"] fun r => do
    return { operation := ← r.required "operation" .string
             payload := ← r.required "payload" .value }

end RemoteRequest

/-- One call on the remote service. -/
inductive Call where
  /-- Carry out an operation. -/
  | invoke (request : RemoteRequest)
  /-- Tell the current state of a resource. -/
  | describe (resource : String)

/-- What the service answers: a value or a fault. -/
abbrev Answer := Except Fault Value

/-- A call with its answer. -/
structure Exchange where
  /-- What was asked. -/
  call : Call
  /-- What was answered. -/
  answer : Answer

/-- A remote service: its answer to a call, given the exchanges so far, oldest first. -/
abbrev Remote := List Exchange → Call → Answer

/-- A service that follows a script: a queue of answers for each operation and one for looks at
resources. Every call takes the next answer of its queue, and the last answer repeats. -/
structure Script where
  /-- Answers by operation. -/
  invoke : List (String × List Answer) := []
  /-- Answers to looks at resources. -/
  describe : List Answer := []

namespace Script

/-- The answer at a position of a queue; the last one repeats, and an empty queue answers with an
empty object. -/
def answerAt (queue : List Answer) (position : Nat) : Answer :=
  (queue[min position (queue.length - 1)]?).getD (.ok (.object []))

/-- Whether two calls take answers from one queue. -/
def sharesQueue : Call → Call → Bool
  | .invoke a, .invoke b => a.operation == b.operation
  | .describe _, .describe _ => true
  | _, _ => false

/-- The queue that answers a call. -/
def queueFor (s : Script) : Call → List Answer
  | .invoke request => (Entries.find? request.operation s.invoke).getD []
  | .describe _ => s.describe

/-- The service that follows the script. -/
def remote (s : Script) : Remote := fun past call =>
  answerAt (s.queueFor call) (past.countP fun exchange => sharesQueue exchange.call call)

end Script

end Lifecycle
