import Lifecycle.Progress

/-!
# Cluster model

The model of a warehouse cluster: what a caller may ask for and what the service
reports about it. Every attribute may be unset, and unset attributes do not appear
in the model's record.
-/

namespace Lifecycle

open Json

/-- A tag of a cluster. -/
structure Tag where
  /-- Key of the tag. -/
  key : String
  /-- Value of the tag. -/
  value : String
  deriving DecidableEq, Repr

namespace Tag

/-- The record of a tag. -/
def encode (t : Tag) : Document := .object [("Key", .string t.key), ("Value", .string t.value)]

/-- Reads a tag. -/
def decode : Decoder Tag :=
  .record ["Key", "Value"] fun r => do
    return { key := ← r.required "Key" .string, value := ← r.required "Value" .string }

/-- The tag as a value of a payload. -/
def toValue (t : Tag) : Value := .ofMembers [("Key", .string t.key), ("Value", .string t.value)]

end Tag

/-- Where audit logs go. -/
structure LoggingProperties where
  /-- Bucket that receives the logs. -/
  bucketName : Option String := none
  /-- Start of the log keys in the bucket. -/
  s3KeyPrefix : Option String := none
  /-- `s3` or `cloudwatch`. -/
  logDestinationType : Option String := none
  /-- Which logs are exported. -/
  logExports : Option (List String) := none
  deriving DecidableEq, Repr

namespace LoggingProperties

/-- The record of a log destination. -/
def encode (l : LoggingProperties) : Document :=
  .ofPresent [
    ("BucketName", l.bucketName.map .string),
    ("S3KeyPrefix", l.s3KeyPrefix.map .string),
    ("LogDestinationType", l.logDestinationType.map .string),
    ("LogExports", l.logExports.map fun names => .array (names.map .string))]

/-- Reads a log destination. -/
def decode : Decoder LoggingProperties :=
  .record ["BucketName", "S3KeyPrefix", "LogDestinationType", "LogExports"] fun r => do
    return { bucketName := ← r.optional "BucketName" .string
             s3KeyPrefix := ← r.optional "S3KeyPrefix" .string
             logDestinationType := ← r.optional "LogDestinationType" .string
             logExports := ← r.optional "LogExports" (.list .string) }

end LoggingProperties

/-- Where clients connect to. -/
structure Endpoint where
  /-- Host name. -/
  address : Option String := none
  /-- Port number. -/
  port : Option UInt16 := none
  deriving DecidableEq, Repr

namespace Endpoint

/-- The record of an endpoint. -/
def encode (e : Endpoint) : Document :=
  .ofPresent [
    ("Address", e.address.map .string),
    ("Port", e.port.map fun port => .ofWord port.toUInt64)]

/-- Reads an endpoint. -/
def decode : Decoder Endpoint :=
  .record ["Address", "Port"] fun r => do
    return { address := ← r.optional "Address" .string, port := ← r.optional "Port" .word16 }

end Endpoint

/-- A warehouse cluster. -/
structure Cluster where
  /-- Primary identifier. -/
  clusterIdentifier : Option String := none
  /-- Name of the administrator. -/
  masterUsername : Option String := none
  /-- Password of the administrator; the service never tells it. -/
  masterUserPassword : Option String := none
  /-- Type of the nodes. -/
  nodeType : Option String := none
  /-- Number of nodes. -/
  numberOfNodes : Option UInt32 := none
  /-- `single-node` or `multi-node`. -/
  clusterType : Option String := none
  /-- Name of the first database. -/
  dbName : Option String := none
  /-- Engine version. -/
  clusterVersion : Option String := none
  /-- Whether the service may upgrade the engine. -/
  allowVersionUpgrade : Option Bool := none
  /-- Maintenance track. -/
  maintenanceTrackName : Option String := none
  /-- Port that clients connect to. -/
  port : Option UInt16 := none
  /-- Whether the cluster has a public address. -/
  publiclyAccessible : Option Bool := none
  /-- Whether the data are encrypted at rest. -/
  encrypted : Option Bool := none
  /-- Key of that encryption. -/
  kmsKeyId : Option String := none
  /-- Roles the cluster may take. -/
  iamRoles : Option (List String) := none
  /-- Security groups of its network. -/
  vpcSecurityGroupIds : Option (List String) := none
  /-- Snapshot to restore from; one that is set turns a creation into a restore. -/
  snapshotIdentifier : Option String := none
  /-- Cluster the snapshot was taken of. -/
  snapshotClusterIdentifier : Option String := none
  /-- Account that owns the snapshot. -/
  ownerAccount : Option String := none
  /-- Tags. -/
  tags : Option (List Tag) := none
  /-- Where audit logs go. -/
  loggingProperties : Option LoggingProperties := none
  /-- Query acceleration: `enabled`, `disabled` or `auto`. -/
  aquaConfigurationStatus : Option String := none
  /-- Policy document attached to the cluster's namespace. -/
  namespaceResourcePolicy : Option Value := none
  /-- Where clients connect to, as the service reports it. -/
  endpoint : Option Endpoint := none
  /-- Resource name of the namespace, as the service reports it. -/
  clusterNamespaceArn : Option String := none
  deriving BEq

namespace Cluster

/-- The cluster of which nothing but the identifier is known. -/
def named (identifier : String) : Cluster := { clusterIdentifier := some identifier }

/-- The identifier of a model that a step works on. -/
def id (c : Cluster) : Except Defect String :=
  match c.clusterIdentifier with
  | some identifier => .ok identifier
  | none => .error (.unidentifiedModel "cluster" "ClusterIdentifier")

/-- Whether making the cluster means restoring a snapshot. -/
def isRestore (c : Cluster) : Bool := c.snapshotIdentifier.isSome

/-- The tags, none when they are unset. -/
def tagList (c : Cluster) : List Tag := c.tags.getD []

/-- The record of a cluster. -/
def encode (c : Cluster) : Document :=
  let text (s : Option String) : Option Document := s.map .string
  let texts (l : Option (List String)) : Option Document := l.map fun l => .array (l.map .string)
  let truth (b : Option Bool) : Option Document := b.map .bool
  .ofPresent [
    ("ClusterIdentifier", text c.clusterIdentifier),
    ("MasterUsername", text c.masterUsername),
    ("MasterUserPassword", text c.masterUserPassword),
    ("NodeType", text c.nodeType),
    ("NumberOfNodes", c.numberOfNodes.map fun n => .ofWord n.toUInt64),
    ("ClusterType", text c.clusterType),
    ("DBName", text c.dbName),
    ("ClusterVersion", text c.clusterVersion),
    ("AllowVersionUpgrade", truth c.allowVersionUpgrade),
    ("MaintenanceTrackName", text c.maintenanceTrackName),
    ("Port", c.port.map fun port => .ofWord port.toUInt64),
    ("PubliclyAccessible", truth c.publiclyAccessible),
    ("Encrypted", truth c.encrypted),
    ("KmsKeyId", text c.kmsKeyId),
    ("IamRoles", texts c.iamRoles),
    ("VpcSecurityGroupIds", texts c.vpcSecurityGroupIds),
    ("SnapshotIdentifier", text c.snapshotIdentifier),
    ("SnapshotClusterIdentifier", text c.snapshotClusterIdentifier),
    ("OwnerAccount", text c.ownerAccount),
    ("Tags", c.tags.map fun tags => .array (tags.map Tag.encode)),
    ("LoggingProperties", c.loggingProperties.map LoggingProperties.encode),
    ("AquaConfigurationStatus", text c.aquaConfigurationStatus),
    ("NamespaceResourcePolicy", c.namespaceResourcePolicy.map .ofValue),
    ("Endpoint", c.endpoint.map Endpoint.encode),
    ("ClusterNamespaceArn", text c.clusterNamespaceArn)]

/-- Names of the attributes, in order. -/
def memberNames : List String :=
  ["ClusterIdentifier", "MasterUsername", "MasterUserPassword", "NodeType", "NumberOfNodes",
    "ClusterType", "DBName", "ClusterVersion", "AllowVersionUpgrade", "MaintenanceTrackName", "Port",
    "PubliclyAccessible", "Encrypted", "KmsKeyId", "IamRoles", "VpcSecurityGroupIds",
    "SnapshotIdentifier", "SnapshotClusterIdentifier", "OwnerAccount", "Tags", "LoggingProperties",
    "AquaConfigurationStatus", "NamespaceResourcePolicy", "Endpoint", "ClusterNamespaceArn"]

/-- Reads a cluster; every attribute may be left out. -/
def decode : Decoder Cluster :=
  .record memberNames fun r => do
    return { clusterIdentifier := ← r.optional "ClusterIdentifier" .string
             masterUsername := ← r.optional "MasterUsername" .string
             masterUserPassword := ← r.optional "MasterUserPassword" .string
             nodeType := ← r.optional "NodeType" .string
             numberOfNodes := ← r.optional "NumberOfNodes" .word32
             clusterType := ← r.optional "ClusterType" .string
             dbName := ← r.optional "DBName" .string
             clusterVersion := ← r.optional "ClusterVersion" .string
             allowVersionUpgrade := ← r.optional "AllowVersionUpgrade" .bool
             maintenanceTrackName := ← r.optional "MaintenanceTrackName" .string
             port := ← r.optional "Port" .word16
             publiclyAccessible := ← r.optional "PubliclyAccessible" .bool
             encrypted := ← r.optional "Encrypted" .bool
             kmsKeyId := ← r.optional "KmsKeyId" .string
             iamRoles := ← r.optional "IamRoles" (.list .string)
             vpcSecurityGroupIds := ← r.optional "VpcSecurityGroupIds" (.list .string)
             snapshotIdentifier := ← r.optional "SnapshotIdentifier" .string
             snapshotClusterIdentifier := ← r.optional "SnapshotClusterIdentifier" .string
             ownerAccount := ← r.optional "OwnerAccount" .string
             tags := ← r.optional "Tags" (.list Tag.decode)
             loggingProperties := ← r.optional "LoggingProperties" LoggingProperties.decode
             aquaConfigurationStatus := ← r.optional "AquaConfigurationStatus" .string
             namespaceResourcePolicy := ← r.optional "NamespaceResourcePolicy" .value
             endpoint := ← r.optional "Endpoint" Endpoint.decode
             clusterNamespaceArn := ← r.optional "ClusterNamespaceArn" .string }

instance : Resource Cluster where
  identifier? c := c.clusterIdentifier
  encode := encode
  decode := decode

end Cluster

end Lifecycle
