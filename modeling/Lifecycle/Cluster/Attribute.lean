import Lifecycle.Cluster.Model
import Lifecycle.Diff
import Lifecycle.Remote

/-!
# Tracked attributes of a cluster

An update compares an explicit list of attributes, so that no attribute takes
part by accident. Most attributes differ when their values do, lists of names when
their elements do. `modifyRequest` carries exactly the changed attributes that are
set in the desired model.
-/

namespace Lifecycle.Cluster

open Json

/-- An attribute that an update compares. -/
structure Attribute where
  /-- Name of the attribute. -/
  name : String
  /-- Whether the attribute differs between two versions. -/
  differs : Cluster → Cluster → Bool

namespace Attribute

/-- An attribute whose values are compared as they are. -/
def plain {α : Type} [BEq α] (name : String) (get : Cluster → Option α) : Attribute :=
  { name, differs := fun a b => get a != get b }

/-- A list attribute that is compared without regard to order and repetition. -/
def unordered (name : String) (get : Cluster → Option (List String)) : Attribute :=
  { name, differs := fun a b => !Diff.sameElements? (get a) (get b) }

/-- Attributes compared as they are. -/
def plainOnes : List Attribute :=
  [ plain "node_type" (·.nodeType),
    plain "number_of_nodes" (·.numberOfNodes),
    plain "cluster_type" (·.clusterType),
    plain "cluster_version" (·.clusterVersion),
    plain "allow_version_upgrade" (·.allowVersionUpgrade),
    plain "maintenance_track_name" (·.maintenanceTrackName),
    plain "master_user_password" (·.masterUserPassword),
    plain "port" (·.port),
    plain "publicly_accessible" (·.publiclyAccessible),
    plain "encrypted" (·.encrypted),
    plain "kms_key_id" (·.kmsKeyId) ]

/-- Attributes compared as sets. -/
def unorderedOnes : List Attribute :=
  [ unordered "iam_roles" (·.iamRoles),
    unordered "vpc_security_group_ids" (·.vpcSecurityGroupIds) ]

/-- Attributes whose change makes the cluster flap through its available state. -/
def patching : List Attribute :=
  [ plain "cluster_version" (·.clusterVersion),
    plain "maintenance_track_name" (·.maintenanceTrackName) ]

/-- Whether any of the attributes changed; without a previous model everything did. -/
def anyChanged (attributes : List Attribute) (desired : Cluster) (previous : Option Cluster) : Bool :=
  match previous with
  | none => true
  | some previous => attributes.any (·.differs desired previous)

end Attribute

/-- The tracked attributes that differ between two versions. -/
def modifiedAttributes (desired previous : Cluster) : List Attribute :=
  (Attribute.plainOnes ++ Attribute.unorderedOnes).filter (·.differs desired previous)

/-- The member of a change for the attribute of the given name: the member's name, and its value
when the attribute is set. There is none for a name that no change knows. -/
def modifyMember? (desired : Cluster) : String → Option (String × Option Value)
  | "node_type" => some ("NodeType", desired.nodeType.map .string)
  | "number_of_nodes" =>
    some ("NumberOfNodes", desired.numberOfNodes.map fun n => .ofWord n.toUInt64)
  | "cluster_type" => some ("ClusterType", desired.clusterType.map .string)
  | "cluster_version" => some ("ClusterVersion", desired.clusterVersion.map .string)
  | "allow_version_upgrade" => some ("AllowVersionUpgrade", desired.allowVersionUpgrade.map .bool)
  | "maintenance_track_name" =>
    some ("MaintenanceTrackName", desired.maintenanceTrackName.map .string)
  | "master_user_password" => some ("MasterUserPassword", desired.masterUserPassword.map .string)
  | "port" => some ("Port", desired.port.map fun port => .ofWord port.toUInt64)
  | "publicly_accessible" => some ("PubliclyAccessible", desired.publiclyAccessible.map .bool)
  | "encrypted" => some ("Encrypted", desired.encrypted.map .bool)
  | "kms_key_id" => some ("KmsKeyId", desired.kmsKeyId.map .string)
  | "iam_roles" => some ("IamRoles", desired.iamRoles.map .ofStrings)
  | "vpc_security_group_ids" =>
    some ("VpcSecurityGroupIds", desired.vpcSecurityGroupIds.map .ofStrings)
  | _ => none

/-- The request that changes a cluster: its identifier and the changed attributes that are set. A
list that is unset is left alone rather than cleared. -/
def modifyRequest (desired previous : Cluster) : Except Defect RemoteRequest := do
  let identifier ← desired.id
  return ⟨"ModifyCluster", .ofPresent <|
    ("ClusterIdentifier", some (.string identifier))
      :: (modifiedAttributes desired previous).filterMap fun a => modifyMember? desired a.name⟩

end Lifecycle.Cluster
