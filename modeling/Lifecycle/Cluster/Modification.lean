import Lifecycle.Cluster.Attribute
import Lifecycle.Cluster.Creation

/-!
# Changing a cluster

Plain attributes change through one request; query acceleration has a request of
its own, which a new cluster does not need because its creation carries the setting,
while a restored one does. Both are watched on a schedule of their own, and certain
changes need several favourable looks in a row.
-/

namespace Lifecycle.Cluster

open Json

/-- The request that sets query acceleration. -/
def aquaRequest (identifier status : String) : RemoteRequest :=
  ⟨"ModifyAquaConfiguration", .ofMembers [
    ("ClusterIdentifier", .string identifier),
    ("AquaConfigurationStatus", .string status)]⟩

namespace Step

/-- Applies the changed attributes. -/
def modifyCluster (patchMinObservations : UInt32) (polling : BackoffPolicy) : Step Cluster where
  name := "modify-cluster"
  shouldRun target _ :=
    match target.previous with
    | none => true
    | some previous => !(modifiedAttributes target.desired previous).isEmpty
  request target _ := modifyRequest target.desired (target.previous.getD {})
  stabilization target _ := do
    return some { ← describeProbe target with
      minObservations :=
        if Attribute.anyChanged Attribute.patching target.desired target.previous then
          patchMinObservations
        else 1
      policy := some polling }
  isStable observation _ :=
    match observation with
    | .present description => isAvailable description && !hasPendingModifications description
    | .absent => false

/-- Applies the setting of query acceleration where a new or changed one is wanted. -/
def configureAqua (minObservations : UInt32) (polling : BackoffPolicy) : Step Cluster where
  name := "configure-aqua"
  shouldRun target _ :=
    target.desired.aquaConfigurationStatus.isSome &&
      match target.previous with
      | none => target.desired.isRestore
      | some previous =>
        target.desired.aquaConfigurationStatus != previous.aquaConfigurationStatus
  request target _ := do
    return aquaRequest (← target.desired.id)
      (target.desired.aquaConfigurationStatus.getD "auto")
  stabilization target _ := do
    return some { ← describeProbe target with minObservations, policy := some polling }
  isStable observation _ :=
    match observation with
    | .present description => isAvailable description && aquaStatus? description != some "applying"
    | .absent => false

end Step

end Lifecycle.Cluster
