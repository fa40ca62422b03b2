import Lifecycle.Cluster.AuditLogging
import Lifecycle.Cluster.Policy

/-!
# Reading a cluster back

Three readings bring the model up to date: the description of the cluster, its
logging status and its policy. The policy is read only where the namespace is known,
a missing policy leaves the model without one, and callers who never asked for a
policy need no permission to read it.
-/

namespace Lifecycle.Cluster

open Json

/-- Changes the model of a record, starting from the empty model when there is none. -/
def updateModel (f : Cluster → Cluster) (r : ProgressRecord Cluster) : ProgressRecord Cluster :=
  r.withModel (f (r.model.getD {}))

namespace Step

/-- Reads the description of the cluster; an answer without a cluster changes nothing. -/
def describeCluster : Step Cluster where
  name := "describe-cluster"
  request target _ := do return describeRequest (some (← target.desired.id)) none
  capture response r :=
    match firstDescribed? response with
    | none => r
    | some description =>
      updateModel (·.refresh description) (rememberNamespace description r)

/-- Reads the logging status. -/
def describeLoggingStatus : Step Cluster where
  name := "describe-logging-status"
  request target _ := do return loggingStatusRequest (← target.desired.id)
  capture response :=
    updateModel fun model => { model with loggingProperties := loggingOfStatus? response }

/-- Reads the policy. -/
def getResourcePolicy : Step Cluster where
  name := "get-resource-policy"
  shouldRun target r := (knownNamespace? target r).isSome
  request target r := do return getPolicyRequest (← knownNamespace target r)
  capture response :=
    updateModel fun model => { model with namespaceResourcePolicy := policyOfResponse? response }
  suppress fault target :=
    fault.isNotFound
      || fault.kind == .accessDenied && target.desired.namespaceResourcePolicy.isNone

end Step

/-- The steps that bring the model up to date. -/
def readBack : List (Step Cluster) :=
  [Step.describeCluster, Step.describeLoggingStatus, Step.getResourcePolicy]

end Lifecycle.Cluster
