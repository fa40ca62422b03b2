import Lifecycle.Cluster.Creation
import Lifecycle.Cluster.Policy

/-!
# Removing a cluster

A cluster is removed without a last snapshot, and counts as gone only when the
service no longer knows it. When its policy was removed in the course of the same
operation, the request waits a little in place.
-/

namespace Lifecycle.Cluster

open Json

/-- The request that removes a cluster. -/
def deleteRequest (identifier : String) : RemoteRequest :=
  ⟨"DeleteCluster", .ofMembers [
    ("ClusterIdentifier", .string identifier),
    ("SkipFinalClusterSnapshot", .bool true)]⟩

/-- Removes the cluster. -/
def Step.deleteCluster (settle : UInt64) : Step Cluster where
  name := "delete-cluster"
  request target _ := do return deleteRequest (← target.desired.id)
  stabilization target _ := some <$> describeProbe target
  isStable observation _ := !observation.isPresent
  settle r :=
    if r.isInvoked deleteResourcePolicyName && settle != 0 then some settle else none

end Lifecycle.Cluster
