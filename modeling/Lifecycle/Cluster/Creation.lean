import Lifecycle.Cluster.Namespace

/-!
# Making a cluster

A cluster is made afresh or restored from a snapshot, whichever the desired model
asks for. Either way the namespace is remembered as soon as an answer tells it, and
a cool-down follows once the cluster is available, because dependent subsystems lag
behind the status right after creation.
-/

namespace Lifecycle.Cluster

open Json

/-- The request that makes a new cluster. -/
def createRequest (c : Cluster) : RemoteRequest :=
  ⟨"CreateCluster", .ofPresent [
    ("ClusterIdentifier", c.clusterIdentifier.map .string),
    ("MasterUsername", c.masterUsername.map .string),
    ("MasterUserPassword", c.masterUserPassword.map .string),
    ("NodeType", c.nodeType.map .string),
    ("NumberOfNodes", c.numberOfNodes.map fun n => .ofWord n.toUInt64),
    ("ClusterType", c.clusterType.map .string),
    ("DBName", c.dbName.map .string),
    ("ClusterVersion", c.clusterVersion.map .string),
    ("AllowVersionUpgrade", c.allowVersionUpgrade.map .bool),
    ("MaintenanceTrackName", c.maintenanceTrackName.map .string),
    ("Port", c.port.map fun port => .ofWord port.toUInt64),
    ("PubliclyAccessible", c.publiclyAccessible.map .bool),
    ("Encrypted", c.encrypted.map .bool),
    ("KmsKeyId", c.kmsKeyId.map .string),
    ("IamRoles", c.iamRoles.map .ofStrings),
    ("VpcSecurityGroupIds", c.vpcSecurityGroupIds.map .ofStrings),
    ("AquaConfigurationStatus", c.aquaConfigurationStatus.map .string),
    ("Tags", c.tags.map fun tags => .array (tags.map Tag.toValue))]⟩

/-- The request that restores a snapshot; it takes neither tags nor query acceleration, which later
steps apply. -/
def restoreRequest (c : Cluster) : RemoteRequest :=
  ⟨"RestoreFromClusterSnapshot", .ofPresent [
    ("ClusterIdentifier", c.clusterIdentifier.map .string),
    ("SnapshotIdentifier", c.snapshotIdentifier.map .string),
    ("SnapshotClusterIdentifier", c.snapshotClusterIdentifier.map .string),
    ("OwnerAccount", c.ownerAccount.map .string),
    ("NodeType", c.nodeType.map .string),
    ("NumberOfNodes", c.numberOfNodes.map fun n => .ofWord n.toUInt64),
    ("AllowVersionUpgrade", c.allowVersionUpgrade.map .bool),
    ("MaintenanceTrackName", c.maintenanceTrackName.map .string),
    ("Port", c.port.map fun port => .ofWord port.toUInt64),
    ("PubliclyAccessible", c.publiclyAccessible.map .bool),
    ("KmsKeyId", c.kmsKeyId.map .string),
    ("IamRoles", c.iamRoles.map .ofStrings),
    ("VpcSecurityGroupIds", c.vpcSecurityGroupIds.map .ofStrings)]⟩

/-- A look at the cluster itself. -/
def describeProbe (target : Target Cluster) : Except Defect Stabilization := do
  return { probe := .describe (← target.desired.id) }

/-- Whether the observed cluster is ready for use. -/
def observedAvailable : Observation → Bool
  | .present description => isAvailable description
  | .absent => false

/-- What follows once a new cluster is available; no delay, no cool-down. -/
def created (coolDown : UInt64) (observed : Option Value) (r : ProgressRecord Cluster) :
    Completion × ProgressRecord Cluster :=
  let r := match observed with
    | some description => rememberNamespace description r
    | none => r
  (if coolDown = 0 then .advance else .coolDown coolDown, r)

namespace Step

/-- Makes a new cluster, unless a snapshot is to be restored. -/
def createCluster (coolDown : UInt64) : Step Cluster where
  name := "create-cluster"
  shouldRun target _ := !target.desired.isRestore
  request target _ := return createRequest target.desired
  capture := rememberNamespace
  stabilization target _ := some <$> describeProbe target
  isStable observation _ := observedAvailable observation
  onComplete := created coolDown

/-- Restores a cluster from a snapshot. -/
def restoreFromSnapshot (coolDown : UInt64) : Step Cluster where
  name := "restore-from-snapshot"
  shouldRun target _ := target.desired.isRestore
  request target _ := return restoreRequest target.desired
  capture := rememberNamespace
  stabilization target _ := some <$> describeProbe target
  isStable observation _ := observedAvailable observation
  onComplete := created coolDown

end Step

end Lifecycle.Cluster
