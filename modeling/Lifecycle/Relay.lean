import Lifecycle.Dispatch

/-!
# Relaying progress

Between two passes somebody outside keeps the progress: the response of a
suspended pass names it, and the next request carries it. `Family.relay` plays
that part for a list of requests, on the level of JSON text.
-/

namespace Lifecycle

open Json

namespace Relay

/-- A request as text: a text is the payload itself, an object takes over the progress handed to it,
and any other value is written as it is. -/
def payload (request : Value) (progress : Option Value) : String :=
  match request, progress with
  | .string text, _ => text
  | .object members, some progress => (Value.object (Entries.put "progress" progress members)).text
  | request, _ => request.text

/-- The progress in a response, when it reports a suspended operation. -/
def suspended? (response : Value) : Option (Option Value) := do
  guard (response.stringAt? "status" == some OperationStatus.inProgress.name)
  return response.get? "progress"

/-- One relayed pass. -/
structure Report where
  /-- The text of the response, none when the payload was no request, or the defect that the pass
  ran into. -/
  result : Except Defect (Option String)
  /-- What the pass did. -/
  journal : Journal

/-- Sends requests one after the other, the last one again and again while the operation is
suspended, at most so many times in all. A payload that is no request ends the relay, as does a
defect, and a response that nests deeper than a text may when it is read. -/
def passes {M : Type} [Resource M] (f : Family M) (remote : Remote) :
    Nat → Value → List Value → Option Value → Journal → List Report
  | 0, _, _, _, _ => []
  | limit + 1, request, later, progress, past =>
    let (result, journal) := (f.dispatchText (payload request progress)).run remote past
    let report := ⟨result, journal.drop past.length⟩
    match result with
    | .ok (some response) =>
      match Decoder.value.ofText? response with
      | none => [report]
      | some response =>
        match suspended? response, later with
        | none, [] => [report]
        | suspension, [] => report :: passes f remote limit request [] suspension.join journal
        | suspension, next :: later =>
          report :: passes f remote limit next later suspension.join journal
    | _ => [report]

end Relay

/-- Relays a list of requests to a family; without any request there is nothing to do. -/
def Family.relay {M : Type} [Resource M] (f : Family M) (remote : Remote) (limit : Nat)
    (requests : List Value) : List Relay.Report :=
  match requests with
  | [] => []
  | request :: later => Relay.passes f remote limit request later none []

end Lifecycle
