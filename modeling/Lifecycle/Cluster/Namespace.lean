import Lifecycle.Cluster.Description
import Lifecycle.Step

/-!
# The namespace of a cluster

Policy requests name the namespace of a cluster by its resource name. What an
answer of the operation told comes before what the caller says, and of the
caller's two models the desired one comes first. When a policy has to change and
nobody knows the namespace, a step of its own looks it up.
-/

namespace Lifecycle.Cluster

open Json

/-- Key under which the record keeps the resource name of the namespace. -/
def namespaceKey : String := "namespace-arn"

/-- The resource name of the namespace, if anyone knows it. -/
def knownNamespace? (target : Target Cluster) (r : ProgressRecord Cluster) : Option String :=
  r.identifier? namespaceKey <|> target.desired.clusterNamespaceArn
    <|> target.previous.bind (·.clusterNamespaceArn)

/-- The resource name of the namespace, which a step must have found by now. -/
def knownNamespace (target : Target Cluster) (r : ProgressRecord Cluster) : Except Defect String :=
  match knownNamespace? target r with
  | some arn => .ok arn
  | none => r.identifier namespaceKey

/-- Keeps the resource name of the namespace when an answer tells it. -/
def rememberNamespace (response : Value) (r : ProgressRecord Cluster) : ProgressRecord Cluster :=
  match namespaceArn? response with
  | some arn => r.remember namespaceKey arn
  | none => r

/-- The request for a page of clusters, or for one cluster. -/
def describeRequest (identifier marker : Option String) : RemoteRequest :=
  ⟨"DescribeClusters", .ofPresent [
    ("ClusterIdentifier", identifier.map .string),
    ("Marker", marker.map .string)]⟩

/-- Whether the policy differs from that of the previous model. -/
def policyChanged (target : Target Cluster) : Bool :=
  match target.previous with
  | none => true
  | some previous =>
    target.desired.namespaceResourcePolicy != previous.namespaceResourcePolicy

/-- Looks up the namespace when a policy change needs it, and goes on looking until it shows. -/
def Step.resolveNamespace : Step Cluster where
  name := "resolve-namespace"
  shouldRun target r :=
    (if target.isCreate then target.desired.namespaceResourcePolicy.isSome
      else policyChanged target)
      && (knownNamespace? target r).isNone
  request target _ := do return describeRequest (some (← target.desired.id)) none
  capture := rememberNamespace
  stabilization target r :=
    match knownNamespace? target r with
    | some _ => return none
    | none => do
      return some { probe := .invoke (describeRequest (some (← target.desired.id)) none) }
  isStable observation _ :=
    match observation with
    | .present page => (namespaceArn? page).isSome
    | .absent => false
  onComplete observed r :=
    match observed with
    | some page => (.advance, rememberNamespace page r)
    | none => (.advance, r)

end Lifecycle.Cluster
