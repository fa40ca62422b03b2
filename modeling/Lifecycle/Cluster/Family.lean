import Lifecycle.Cluster.Modification
import Lifecycle.Cluster.ReadBack
import Lifecycle.Cluster.Removal
import Lifecycle.Cluster.Tagging
import Lifecycle.Dispatch
import Lifecycle.Settings

/-!
# The cluster family

Fault codes, chains and listing of warehouse clusters. Making and changing a
cluster end with a read-back; removing one starts with its policy.
-/

namespace Lifecycle.Cluster

open Json

/-- Fault codes of cluster, tag, logging and policy requests. -/
def faults : FaultTable :=
  FaultTable.common
    |>.throttled ["DependentServiceRequestThrottling"]
    |>.transient ["DependentServiceUnavailable"]
    |>.terminal ["ClusterAlreadyExists"] .alreadyExists
    |>.terminal ["ClusterNotFound", "ResourceNotFound"] .notFound
    |>.terminal ["InvalidClusterState", "InvalidClusterSnapshotState", "ClusterSnapshotNotFound",
      "InvalidVPCNetworkState", "InvalidSubnet", "InvalidTag", "InvalidS3BucketName",
      "InvalidS3KeyPrefix", "BucketNotFound", "InsufficientS3BucketPolicy", "InvalidPolicy",
      "ConflictPolicyUpdate", "UnsupportedOperation", "InvalidClusterTrack",
      "InvalidRetentionPeriod"] .invalidRequest
    |>.terminal ["ClusterQuotaExceeded", "NumberOfNodesQuotaExceeded",
      "NumberOfNodesPerClusterLimitExceeded", "InsufficientClusterCapacity", "TagLimitExceeded",
      "LimitExceeded"] .serviceLimitExceeded
    |>.terminal ["AccessToClusterDenied"] .accessDenied

/-- The steps that make a cluster. -/
def createChain (s : Settings) (scope : ResourceScope) : Chain Cluster where
  operation := "create"
  config := s.chainConfig
  steps :=
    [ Step.createCluster s.coolDown,
      Step.restoreFromSnapshot s.coolDown,
      Step.createTags scope,
      Step.enableLogging,
      Step.configureAqua s.aquaMinObservations s.modification,
      Step.resolveNamespace,
      Step.putResourcePolicy ] ++ readBack

/-- The steps that change a cluster. -/
def updateChain (s : Settings) (scope : ResourceScope) : Chain Cluster where
  operation := "update"
  config := s.chainConfig
  steps :=
    [ Step.modifyCluster s.patchMinObservations s.modification,
      Step.deleteTags scope,
      Step.createTags scope,
      Step.disableLogging,
      Step.enableLogging,
      Step.configureAqua s.aquaMinObservations s.modification,
      Step.resolveNamespace,
      Step.putResourcePolicy,
      Step.deleteResourcePolicy ] ++ readBack

/-- The steps that remove a cluster. -/
def deleteChain (s : Settings) : Chain Cluster where
  operation := "delete"
  config := s.chainConfig.deleting
  steps := [Step.deleteResourcePolicy, Step.deleteCluster s.settle]

/-- The steps that read a cluster. -/
def readChain (s : Settings) : Chain Cluster where
  operation := "read"
  config := s.chainConfig
  steps := readBack

/-- What a new cluster needs and the model lacks. -/
def missingProperties (c : Cluster) : List String :=
  (if c.masterUsername.isNone then ["MasterUsername"] else [])
    ++ (if c.masterUserPassword.isNone then ["MasterUserPassword"] else [])
    ++ (if c.nodeType.isNone then ["NodeType"] else [])

/-- Why a desired cluster is of no use for an operation, if it is not. -/
def refusal (operation : Operation) (c : Cluster) : Option String :=
  if c.clusterIdentifier.isNone then some "ClusterIdentifier is required"
  else if operation = .create ∧ ¬c.isRestore ∧ missingProperties c ≠ [] then
    some ("Missing required properties for a new cluster: "
      ++ ", ".intercalate (missingProperties c))
  else none

/-- A cluster that an operation takes on has an identifier. -/
theorem isSome_of_refusal {operation : Operation} {c : Cluster} (h : refusal operation c = none) :
    c.clusterIdentifier.isSome = true := by
  cases hid : c.clusterIdentifier with
  | some => rfl
  | none => simp [refusal, hid] at h

/-- The page in the answer to a listing: the clusters that have an identifier, by nothing but
that. -/
def listPage (response : Value) : ListPage Cluster :=
  { models := ((ofPage response).filterMap (·.clusterIdentifier)).map named
    nextToken := response.stringAt? "Marker" }

/-- The cluster family under given settings and in a given scope. -/
def family (s : Settings) (scope : ResourceScope) : Family Cluster where
  typeName := "AWS::Redshift::Cluster"
  faults := faults
  refusal := refusal
  chain
    | .create => some (createChain s scope)
    | .read => some (readChain s)
    | .update => some (updateChain s scope)
    | .delete => some (deleteChain s)
    | .list => none
  listRequest token := describeRequest none token
  listPage := listPage

end Lifecycle.Cluster
