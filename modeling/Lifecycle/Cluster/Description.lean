import Lifecycle.Cluster.Model

/-!
# What the service says about a cluster

Readings of the answers of the remote service. Every reading is total: a part
that is missing or has another shape is simply not known.
-/

namespace Lifecycle.Cluster

open Json

/-- The first cluster of a page, or the answer itself when it describes a single cluster. -/
def firstDescribed? (response : Value) : Option Value :=
  match response.get? "Clusters" with
  | some clusters => clusters.first?
  | none => (response.get? "ClusterIdentifier").map fun _ => response

/-- The resource name of the namespace in the answer to a creation or in a page of clusters. -/
def namespaceArn? (response : Value) : Option String :=
  ((response.get? "Cluster").getD response).stringAt? "ClusterNamespaceArn"
    <|> (firstDescribed? response).bind (·.stringAt? "ClusterNamespaceArn")

/-- The status of a described cluster. -/
def status? (description : Value) : Option String := description.stringAt? "ClusterStatus"

/-- Whether a described cluster is ready for use. -/
def isAvailable (description : Value) : Bool := status? description == some "available"

/-- Whether the service has yet to apply modifications. -/
def hasPendingModifications (description : Value) : Bool :=
  match (description.get? "PendingModifiedValues").bind Value.object? with
  | some pending => !pending.isEmpty
  | none => false

/-- The state of query acceleration. -/
def aquaStatus? (description : Value) : Option String :=
  (description.get? "AquaConfiguration").bind (·.stringAt? "AquaStatus")

/-- The texts that the items of a list hold under a name. -/
def textsAt? (list member : String) (v : Value) : Option (List String) := do
  let items ← (← v.get? list).array?
  return items.filterMap (·.stringAt? member)

/-- A natural number below a bound. -/
def natAt? (member : String) (bound : Nat) (v : Value) : Option Nat :=
  ((v.get? member).bind Value.nat?).filter (· < bound)

/-- The model of what a description reports. -/
def ofDescription (d : Value) : Cluster :=
  let endpoint := (d.get? "Endpoint").map fun e =>
    { address := e.stringAt? "Address", port := (natAt? "Port" UInt16.size e).map .ofNat : Endpoint }
  let nodes := natAt? "NumberOfNodes" UInt32.size d
  { clusterIdentifier := d.stringAt? "ClusterIdentifier"
    masterUsername := d.stringAt? "MasterUsername"
    nodeType := d.stringAt? "NodeType"
    numberOfNodes := nodes.map .ofNat
    clusterType := nodes.map fun nodes => if 1 < nodes then "multi-node" else "single-node"
    dbName := d.stringAt? "DBName"
    clusterVersion := d.stringAt? "ClusterVersion"
    allowVersionUpgrade := d.boolAt? "AllowVersionUpgrade"
    maintenanceTrackName := d.stringAt? "MaintenanceTrackName"
    port := endpoint.bind (·.port)
    publiclyAccessible := d.boolAt? "PubliclyAccessible"
    encrypted := d.boolAt? "Encrypted"
    kmsKeyId := d.stringAt? "KmsKeyId"
    iamRoles := textsAt? "IamRoles" "IamRoleArn" d
    vpcSecurityGroupIds := textsAt? "VpcSecurityGroups" "VpcSecurityGroupId" d
    tags := (d.get? "Tags").bind (Decoder.list Tag.decode).ofValue?
    aquaConfigurationStatus :=
      (d.get? "AquaConfiguration").bind (·.stringAt? "AquaConfigurationStatus")
    endpoint
    clusterNamespaceArn := d.stringAt? "ClusterNamespaceArn" }

/-- The model after a description came in: what the service reports, with what it never reports
taken from before. Logging and policy have readings of their own and start out unset. -/
def refresh (model : Cluster) (description : Value) : Cluster :=
  let described := ofDescription description
  { described with
    clusterIdentifier := described.clusterIdentifier <|> model.clusterIdentifier
    masterUserPassword := model.masterUserPassword
    snapshotIdentifier := model.snapshotIdentifier
    snapshotClusterIdentifier := model.snapshotClusterIdentifier
    ownerAccount := model.ownerAccount }

/-- Whether audit logging is on. -/
def loggingEnabled (status : Value) : Bool := (status.boolAt? "LoggingEnabled").getD false

/-- Where audit logs go, when logging is on. -/
def loggingOfStatus? (status : Value) : Option LoggingProperties :=
  if loggingEnabled status then
    some { bucketName := status.stringAt? "BucketName"
           s3KeyPrefix := status.stringAt? "S3KeyPrefix"
           logDestinationType := status.stringAt? "LogDestinationType"
           logExports := (status.get? "LogExports").bind (Decoder.list .string).ofValue? }
  else none

/-- The policy document in the answer to a policy reading; a text that is JSON is taken as such. -/
def policyOfResponse? (response : Value) : Option Value := do
  let policy ← (← response.get? "ResourcePolicy").get? "Policy"
  match policy with
  | .string text => return (Decoder.value.ofText? text).getD policy
  | _ => return policy

/-- All clusters on a page. -/
def ofPage (response : Value) : List Cluster :=
  (((response.get? "Clusters").bind Value.array?).getD []).map ofDescription

end Lifecycle.Cluster
