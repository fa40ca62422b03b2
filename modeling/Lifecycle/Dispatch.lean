import Lifecycle.Chain

/-!
# Dispatching requests

A request names an operation on a resource family and carries the models and the
progress of the pass before. The dispatcher picks the chain of that operation,
makes one pass and answers with a response that carries the progress back.
Requests and responses also travel as JSON text (`Family.dispatchText`).
-/

namespace Lifecycle

open Json

/-- What can be asked of a resource family. -/
inductive Operation where
  /-- Make a resource. -/
  | create
  /-- Read the current state of a resource. -/
  | read
  /-- Change a resource. -/
  | update
  /-- Remove a resource. -/
  | delete
  /-- List the resources. -/
  | list
  deriving DecidableEq, Repr

namespace Operation

/-- All operations, in the order of their declaration. -/
def all : List Operation := [.create, .read, .update, .delete, .list]

/-- The name of the operation on the wire. -/
def name : Operation → String
  | .create => "Create"
  | .read => "Read"
  | .update => "Update"
  | .delete => "Delete"
  | .list => "List"

/-- The name of the operation in messages. -/
def display : Operation → String
  | .create => "create"
  | .read => "read"
  | .update => "update"
  | .delete => "delete"
  | .list => "list"

/-- The operation as its name. -/
def encode (operation : Operation) : Document := .string operation.name

/-- Reads an operation by its name. -/
def decode : Decoder Operation :=
  .enumeration (all.map fun operation => (operation.name, operation))

end Operation

/-- One invocation of the dispatcher. -/
structure HandlerRequest (M : Type) where
  /-- What to do. -/
  operation : Operation
  /-- The state wanted. -/
  desired : Option M := none
  /-- The state to replace. -/
  previous : Option M := none
  /-- Progress as the response before returned it. -/
  progress : Option (ProgressRecord M) := none
  /-- Where a listing goes on. -/
  nextToken : Option String := none
  deriving DecidableEq

namespace HandlerRequest

variable {M : Type} [Resource M]

/-- The request in JSON; members without a value are written as null. -/
def encode (r : HandlerRequest M) : Document :=
  .object [
    ("operation", r.operation.encode),
    ("desiredModel", .orNull (r.desired.map Resource.encode)),
    ("previousModel", .orNull (r.previous.map Resource.encode)),
    ("progress", .orNull (r.progress.map ProgressRecord.encode)),
    ("nextToken", .orNull (r.nextToken.map .string))]

/-- Reads a request; only the operation must be there. -/
def decode : Decoder (HandlerRequest M) :=
  .record ["operation", "desiredModel", "previousModel", "progress", "nextToken"] fun r => do
    return { operation := ← r.required "operation" Operation.decode
             desired := ← r.nullable "desiredModel" Resource.decode
             previous := ← r.nullable "previousModel" Resource.decode
             progress := ← r.nullable "progress" ProgressRecord.decode
             nextToken := ← r.optional "nextToken" .string }

end HandlerRequest

/-- How an invocation ended. -/
inductive OperationStatus where
  /-- The operation is finished. -/
  | success
  /-- The operation has failed. -/
  | failed
  /-- The operation is suspended. -/
  | inProgress
  deriving DecidableEq, Repr

namespace OperationStatus

/-- All statuses, in the order of their declaration. -/
def all : List OperationStatus := [.success, .failed, .inProgress]

/-- The name of the status on the wire. -/
def name : OperationStatus → String
  | .success => "Success"
  | .failed => "Failed"
  | .inProgress => "InProgress"

/-- The status as its name. -/
def encode (status : OperationStatus) : Document := .string status.name

/-- Reads a status by its name. -/
def decode : Decoder OperationStatus := .enumeration (all.map fun status => (status.name, status))

end OperationStatus

/-- The answer of the dispatcher. -/
structure HandlerResponse (M : Type) where
  /-- How the invocation ended. -/
  status : OperationStatus
  /-- The resource, after a success that leaves one. -/
  model : Option M := none
  /-- The resources of a listing. -/
  models : Option (List M) := none
  /-- Where the listing goes on. -/
  nextToken : Option String := none
  /-- Seconds before the next invocation. -/
  callbackDelay : UInt64 := 0
  /-- Progress to hand in again. -/
  progress : Option (ProgressRecord M) := none
  /-- The kind of failure. -/
  errorCode : Option FailureKind := none
  /-- The message of a failure. -/
  message : Option String := none
  deriving DecidableEq

namespace HandlerResponse

variable {M : Type}

/-- The response in JSON; members without a value are left out. -/
def encode [Resource M] (r : HandlerResponse M) : Document :=
  .ofPresent [
    ("status", some r.status.encode),
    ("resourceModel", r.model.map Resource.encode),
    ("resourceModels", r.models.map fun models => .array (models.map Resource.encode)),
    ("nextToken", r.nextToken.map .string),
    ("callbackDelaySeconds", some (.ofWord r.callbackDelay)),
    ("progress", r.progress.map ProgressRecord.encode),
    ("errorCode", r.errorCode.map FailureKind.encode),
    ("message", r.message.map .string)]

/-- Reads a response; only the status must be there. -/
def decode [Resource M] : Decoder (HandlerResponse M) :=
  .record ["status", "resourceModel", "resourceModels", "nextToken", "callbackDelaySeconds",
      "progress", "errorCode", "message"] fun r => do
    return { status := ← r.required "status" OperationStatus.decode
             model := ← r.nullable "resourceModel" Resource.decode
             models := ← r.nullable "resourceModels" (.list Resource.decode)
             nextToken := ← r.optional "nextToken" .string
             callbackDelay := ← r.defaulted "callbackDelaySeconds" 0 .word64
             progress := ← r.nullable "progress" ProgressRecord.decode
             errorCode := ← r.optional "errorCode" FailureKind.decode
             message := ← r.optional "message" .string }

/-- The response that reports an outcome. -/
def ofOutcome : Outcome M → HandlerResponse M
  | .success model => { status := .success, model }
  | .failed kind message => { status := .failed, errorCode := some kind, message := some message }
  | .inProgress delay progress =>
    { status := .inProgress, callbackDelay := delay, progress := some progress }

end HandlerResponse

/-- One page of a listing. -/
structure ListPage (M : Type) where
  /-- The resources on the page. -/
  models : List M
  /-- Where the next page starts, unless this is the last one. -/
  nextToken : Option String := none

/-- The response that carries a page. -/
def HandlerResponse.ofPage {M : Type} (page : ListPage M) : HandlerResponse M :=
  { status := .success, models := some page.models, nextToken := page.nextToken }

/-- What is particular to one family of resources. -/
structure Family (M : Type) where
  /-- Name of the resource type. -/
  typeName : String
  /-- The fault codes of the family. -/
  faults : FaultTable
  /-- Why a desired model is of no use for an operation, if it is not. -/
  refusal : Operation → M → Option String := fun _ _ => none
  /-- The chain of an operation other than a listing. -/
  chain : Operation → Option (Chain M)
  /-- The request for a page of a listing. -/
  listRequest : Option String → RemoteRequest
  /-- The page in the answer to that request. -/
  listPage : Value → ListPage M

/-- Why a request is turned away before any remote call. -/
inductive Refusal where
  /-- The operation needs a desired model. -/
  | missingDesired (operation : Operation)
  /-- The family has no chain for the operation. -/
  | unsupported (operation : Operation) (typeName : String)
  /-- The desired model is of no use. -/
  | invalidModel (message : String)
  deriving DecidableEq, Repr

/-- The message of a refusal. -/
def Refusal.message : Refusal → String
  | .missingDesired operation => "Desired model is required for " ++ operation.display
  | .unsupported operation typeName =>
    "Operation " ++ operation.display ++ " is not supported by " ++ typeName
  | .invalidModel message => message

namespace Family

variable {M : Type}

/-- Lists one page. -/
def list (f : Family M) (token : Option String) : Session (HandlerResponse M) := do
  match ← Session.ask f.faults .listing (.invoke (f.listRequest token)) with
  | .ok response => return .ofPage (f.listPage response)
  | .error fault => return .ofOutcome (.ofFault fault)

/-- The chain for a request and the desired model it works on, or why there is none. -/
def chainFor (f : Family M) (request : HandlerRequest M) : Except Refusal (Chain M × M) := do
  let some desired := request.desired | throw (.missingDesired request.operation)
  let some chain := f.chain request.operation
    | throw (.unsupported request.operation f.typeName)
  if let some message := f.refusal request.operation desired then
    throw (.invalidModel message)
  return (chain, desired)

/-- Carries out one invocation. -/
def dispatch (f : Family M) (request : HandlerRequest M) : Session (HandlerResponse M) :=
  if request.operation = .list then f.list request.nextToken
  else
    match f.chainFor request with
    | .error refusal => return .ofOutcome (.failed .invalidRequest refusal.message)
    | .ok (chain, desired) =>
      .ofOutcome <$> chain.pass f.faults ⟨desired, request.previous⟩ (request.progress.getD .empty)

/-- Carries out one invocation given as JSON text; none when the text is no request. -/
def dispatchText [Resource M] (f : Family M) (payload : String) : Session (Option String) :=
  match HandlerRequest.decode.ofText? payload with
  | none => return none
  | some request => do return some (← f.dispatch request).encode.text

end Family

end Lifecycle
