import Lifecycle.Json.Record

/-!
# Faults and their classification

A fault is what the remote service answers instead of a result. A fault table
gives each fault a disposition: retry the request, treat it as a hiccup, or stop
with a failure kind. The code decides first, exactly as registered or without one
trailing `Fault` or `Exception`; the status decides only for unknown codes.
-/

namespace Lifecycle

open Json

/-- What the remote service answers instead of a result. -/
structure Fault where
  /-- Machine-readable code. -/
  code : String
  /-- Message for people, passed on as it is. -/
  message : String
  /-- Status in the manner of HTTP. -/
  status : UInt16 := 400
  deriving DecidableEq, Repr

/-- Why an operation failed. -/
inductive FailureKind where
  /-- The resource is there already. -/
  | alreadyExists
  /-- The resource is not there. -/
  | notFound
  /-- The request makes no sense, or not in the present state. -/
  | invalidRequest
  /-- A quota is used up. -/
  | serviceLimitExceeded
  /-- The caller lacks a permission. -/
  | accessDenied
  /-- The effect of a request did not show within the time given. -/
  | notStabilized
  /-- Anything else. -/
  | generalServiceException
  deriving DecidableEq, Repr

namespace FailureKind

/-- All kinds, in the order of their declaration. -/
def all : List FailureKind :=
  [.alreadyExists, .notFound, .invalidRequest, .serviceLimitExceeded, .accessDenied, .notStabilized,
    .generalServiceException]

/-- The name of the kind, on the wire and in messages. -/
def name : FailureKind → String
  | .alreadyExists => "AlreadyExists"
  | .notFound => "NotFound"
  | .invalidRequest => "InvalidRequest"
  | .serviceLimitExceeded => "ServiceLimitExceeded"
  | .accessDenied => "AccessDenied"
  | .notStabilized => "NotStabilized"
  | .generalServiceException => "GeneralServiceException"

/-- The kind as its name. -/
def encode (kind : FailureKind) : Document := .string kind.name

/-- Reads a kind by its name. -/
def decode : Decoder FailureKind := .enumeration (all.map fun kind => (kind.name, kind))

end FailureKind

/-- What to do about a fault. -/
inductive Disposition where
  /-- The request was turned away before it took effect; send it again later. -/
  | throttled
  /-- The service stumbled; an observation made through it counts for nothing. -/
  | transient
  /-- Stop with this kind of failure. -/
  | terminal (kind : FailureKind)
  deriving DecidableEq, Repr

namespace Disposition

/-- The disposition as it appears in messages. -/
def label : Disposition → String
  | .throttled => "Throttled"
  | .transient => "Transient"
  | .terminal kind => "Terminal(" ++ kind.name ++ ")"

/-- The disposition as its name, with the kind as content where there is one. -/
def encode : Disposition → Document
  | .throttled => .string "throttled"
  | .transient => .string "transient"
  | .terminal kind => .object [("terminal", kind.encode)]

/-- Reads a disposition. -/
def decode : Decoder Disposition := fun levels d =>
  match levels, d with
  | levels + 1, .object [("terminal", kind)] => .terminal <$> FailureKind.decode levels kind
  | _, _ => Decoder.enumeration [("throttled", .throttled), ("transient", .transient)] levels d

end Disposition

namespace Fault

/-- The record of a fault. -/
def encode (f : Fault) : Document :=
  .object [("code", .string f.code), ("message", .string f.message),
    ("status", .ofWord f.status.toUInt64)]

/-- Reads a fault; all three members must be there. -/
def decode : Decoder Fault :=
  .record ["code", "message", "status"] fun r => do
    return { code := ← r.required "code" .string
             message := ← r.required "message" .string
             status := ← r.required "status" .word16 }

end Fault

/-- A fault together with what to do about it. -/
structure ClassifiedFault where
  /-- What to do. -/
  disposition : Disposition
  /-- The fault itself. -/
  fault : Fault
  deriving DecidableEq, Repr

namespace ClassifiedFault

/-- The kind of failure reported when the fault ends an operation. -/
def kind (f : ClassifiedFault) : FailureKind :=
  match f.disposition with
  | .terminal kind => kind
  | .throttled | .transient => .generalServiceException

/-- Whether the fault says that the resource is not there. -/
def isNotFound (f : ClassifiedFault) : Bool := f.disposition == .terminal .notFound

/-- Whether the same request may succeed later. -/
def isRetryable (f : ClassifiedFault) : Bool :=
  match f.disposition with
  | .throttled | .transient => true
  | .terminal _ => false

/-- The message of the remote service. -/
def message (f : ClassifiedFault) : String := f.fault.message

/-- The kind of a fault that ends an operation is the one it is registered with. -/
theorem kind_of_terminal {f : ClassifiedFault} {kind : FailureKind}
    (h : f.disposition = .terminal kind) : f.kind = kind := by
  rw [ClassifiedFault.kind, h]

/-- A fault of a special kind is registered with it. -/
theorem disposition_of_kind {f : ClassifiedFault} {kind : FailureKind} (h : f.kind = kind)
    (hspecial : kind ≠ .generalServiceException) : f.disposition = .terminal kind := by
  rw [ClassifiedFault.kind] at h
  split at h
  · next hterminal => rw [hterminal, h]
  all_goals exact absurd h.symm hspecial

/-- A fault that ends an operation will not pass. -/
theorem isRetryable_of_terminal {f : ClassifiedFault} {kind : FailureKind}
    (h : f.disposition = .terminal kind) : f.isRetryable = false := by
  rw [isRetryable, h]

/-- Passing trouble is of no special kind. -/
theorem kind_of_isRetryable {f : ClassifiedFault} (h : f.isRetryable = true) :
    f.kind = .generalServiceException := by
  rw [ClassifiedFault.kind]
  split
  · next hterminal => cases h.symm.trans (isRetryable_of_terminal hterminal)
  all_goals rfl

/-- Code, message and disposition in one line. -/
def display (f : ClassifiedFault) : String :=
  f.fault.code ++ ": " ++ f.fault.message ++ " (" ++ f.disposition.label ++ ")"

end ClassifiedFault

/-- Registered codes with their dispositions, the latest registration first. -/
structure FaultTable where
  /-- The registrations. -/
  registrations : List (String × Disposition) := []
  deriving DecidableEq, Repr

namespace FaultTable

/-- The table without registrations. -/
def empty : FaultTable := {}

/-- Registers a code; an earlier registration of the same code no longer counts. -/
def register (t : FaultTable) (code : String) (d : Disposition) : FaultTable :=
  ⟨(code, d) :: t.registrations⟩

/-- Registers several codes with one disposition. -/
def registerAll (t : FaultTable) (codes : List String) (d : Disposition) : FaultTable :=
  codes.foldl (fun t code => t.register code d) t

/-- Registers codes that ask to slow down. -/
def throttled (t : FaultTable) (codes : List String) : FaultTable := t.registerAll codes .throttled

/-- Registers codes of passing trouble. -/
def transient (t : FaultTable) (codes : List String) : FaultTable := t.registerAll codes .transient

/-- Registers codes that end an operation. -/
def terminal (t : FaultTable) (codes : List String) (kind : FailureKind) : FaultTable :=
  t.registerAll codes (.terminal kind)

/-- The text before a given ending, when the text ends so. -/
def withoutEnding? (ending code : String) : Option String :=
  let cs := code.toList
  let es := ending.toList
  if es.isSuffixOf cs then some (String.ofList (cs.take (cs.length - es.length))) else none

/-- The code without one trailing `Fault`, or else without one trailing `Exception`. -/
def stem? (code : String) : Option String :=
  withoutEnding? "Fault" code <|> withoutEnding? "Exception" code

/-- The latest registration of exactly this code. -/
def registered? (t : FaultTable) (code : String) : Option Disposition :=
  Entries.find? code t.registrations

/-- The registration that covers a code: its own, or else that of its stem. -/
def lookup? (t : FaultTable) (code : String) : Option Disposition :=
  t.registered? code <|> (stem? code).bind t.registered?

/-- What the status alone says. -/
def ofStatus (status : UInt16) : Disposition :=
  if status = 429 then .throttled
  else if status = 403 then .terminal .accessDenied
  else if status = 404 then .terminal .notFound
  else if 500 ≤ status ∧ status ≤ 599 then .transient
  else .terminal .generalServiceException

/-- The disposition of a fault. -/
def dispositionOf (t : FaultTable) (f : Fault) : Disposition :=
  (t.lookup? f.code).getD (ofStatus f.status)

/-- The fault with its disposition. -/
def classify (t : FaultTable) (f : Fault) : ClassifiedFault := ⟨t.dispositionOf f, f⟩

@[simp] theorem message_classify (t : FaultTable) (f : Fault) : (t.classify f).message = f.message :=
  rfl

/-- Throttling, permission and validation codes that every service family shares. -/
def common : FaultTable :=
  empty
    |>.throttled ["Throttling", "ThrottlingException", "RequestLimitExceeded",
      "TooManyRequestsException"]
    |>.transient ["InternalFailure", "ServiceUnavailable", "InternalError"]
    |>.terminal ["AccessDenied", "AccessDeniedException", "UnauthorizedOperation",
      "UnauthorizedException"] .accessDenied
    |>.terminal ["InvalidParameterValue", "InvalidParameterCombination", "MissingParameter",
      "ValidationError"] .invalidRequest

end FaultTable

end Lifecycle
