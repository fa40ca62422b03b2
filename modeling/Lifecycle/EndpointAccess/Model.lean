import Lifecycle.Progress

/-!
# Endpoint access model

The model of a managed network endpoint in front of a cluster, its record, and
the readings of what the service says about it.
-/

namespace Lifecycle

open Json

/-- A managed network endpoint in front of a cluster. -/
structure EndpointAccess where
  /-- Primary identifier. -/
  endpointName : Option String := none
  /-- Cluster behind the endpoint. -/
  clusterIdentifier : Option String := none
  /-- Account that owns the cluster, for an endpoint across accounts. -/
  resourceOwner : Option String := none
  /-- Subnets of the endpoint. -/
  subnetGroupName : Option String := none
  /-- Security groups of the endpoint. -/
  vpcSecurityGroupIds : Option (List String) := none
  /-- Host name, as the service reports it. -/
  address : Option String := none
  /-- Port number, as the service reports it. -/
  port : Option UInt16 := none
  /-- Status, as the service reports it. -/
  endpointStatus : Option String := none
  deriving DecidableEq, Repr

namespace EndpointAccess

/-- The endpoint of which nothing but the name is known. -/
def named (name : String) : EndpointAccess := { endpointName := some name }

/-- The name of a model that a step works on. -/
def name (e : EndpointAccess) : Except Defect String :=
  match e.endpointName with
  | some name => .ok name
  | none => .error (.unidentifiedModel "endpoint" "EndpointName")

/-- The security groups, none when they are unset. -/
def securityGroups (e : EndpointAccess) : List String := e.vpcSecurityGroupIds.getD []

/-- The record of an endpoint. -/
def encode (e : EndpointAccess) : Document :=
  .ofPresent [
    ("EndpointName", e.endpointName.map .string),
    ("ClusterIdentifier", e.clusterIdentifier.map .string),
    ("ResourceOwner", e.resourceOwner.map .string),
    ("SubnetGroupName", e.subnetGroupName.map .string),
    ("VpcSecurityGroupIds", e.vpcSecurityGroupIds.map fun groups => .array (groups.map .string)),
    ("Address", e.address.map .string),
    ("Port", e.port.map fun port => .ofWord port.toUInt64),
    ("EndpointStatus", e.endpointStatus.map .string)]

/-- Reads an endpoint; every attribute may be left out. -/
def decode : Decoder EndpointAccess :=
  .record ["EndpointName", "ClusterIdentifier", "ResourceOwner", "SubnetGroupName",
      "VpcSecurityGroupIds", "Address", "Port", "EndpointStatus"] fun r => do
    return { endpointName := ← r.optional "EndpointName" .string
             clusterIdentifier := ← r.optional "ClusterIdentifier" .string
             resourceOwner := ← r.optional "ResourceOwner" .string
             subnetGroupName := ← r.optional "SubnetGroupName" .string
             vpcSecurityGroupIds := ← r.optional "VpcSecurityGroupIds" (.list .string)
             address := ← r.optional "Address" .string
             port := ← r.optional "Port" .word16
             endpointStatus := ← r.optional "EndpointStatus" .string }

instance : Resource EndpointAccess where
  identifier? e := e.endpointName
  encode := encode
  decode := decode

/-- The status of a described endpoint. -/
def status? (description : Value) : Option String := description.stringAt? "EndpointStatus"

/-- Whether a described endpoint is ready for use. -/
def isActive (description : Value) : Bool := status? description == some "active"

/-- The model of what a description reports. -/
def ofDescription (d : Value) : EndpointAccess :=
  { endpointName := d.stringAt? "EndpointName"
    clusterIdentifier := d.stringAt? "ClusterIdentifier"
    resourceOwner := d.stringAt? "ResourceOwner"
    subnetGroupName := d.stringAt? "SubnetGroupName"
    vpcSecurityGroupIds :=
      ((d.get? "VpcSecurityGroups").bind Value.array?).map fun groups =>
        groups.filterMap (·.stringAt? "VpcSecurityGroupId")
    address := d.stringAt? "Address"
    port := (((d.get? "Port").bind Value.nat?).filter (· < UInt16.size)).map .ofNat
    endpointStatus := d.stringAt? "EndpointStatus" }

/-- The first endpoint of a page, or the answer itself when it describes a single endpoint. -/
def firstDescribed? (response : Value) : Option Value :=
  match response.get? "EndpointAccessList" with
  | some list => list.first?
  | none => (response.get? "EndpointName").map fun _ => response

/-- All endpoints on a page. -/
def ofPage (response : Value) : List EndpointAccess :=
  (((response.get? "EndpointAccessList").bind Value.array?).getD []).map ofDescription

end EndpointAccess

end Lifecycle
