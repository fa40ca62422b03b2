import Lifecycle.Diff
import Lifecycle.Dispatch
import Lifecycle.EndpointAccess.Model
import Lifecycle.Settings

/-!
# The endpoint family

Steps, fault codes, chains and listing of managed endpoints. An update replaces
the security groups when their set changed and waits until the service reports the
wanted set; a removal is over when the service no longer knows the endpoint.
-/

namespace Lifecycle.EndpointAccess

open Json

/-- The request that makes an endpoint; the owner appears only where there is one. -/
def createRequest (e : EndpointAccess) : Except Defect RemoteRequest := do
  let name ← e.name
  return ⟨"CreateEndpointAccess", .ofPresent [
    ("EndpointName", some (.string name)),
    ("ClusterIdentifier", some (.ofString? e.clusterIdentifier)),
    ("SubnetGroupName", some (.ofString? e.subnetGroupName)),
    ("VpcSecurityGroupIds", some (.ofStrings e.securityGroups)),
    ("ResourceOwner", e.resourceOwner.map .string)]⟩

/-- The request that replaces the security groups. -/
def modifyRequest (e : EndpointAccess) : Except Defect RemoteRequest := do
  let name ← e.name
  return ⟨"ModifyEndpointAccess", .ofMembers [
    ("EndpointName", .string name),
    ("VpcSecurityGroupIds", .ofStrings e.securityGroups)]⟩

/-- The request that removes an endpoint. -/
def deleteRequest (e : EndpointAccess) : Except Defect RemoteRequest := do
  return ⟨"DeleteEndpointAccess", .ofMembers [("EndpointName", .string (← e.name))]⟩

/-- The request for the description of an endpoint. -/
def describeRequest (e : EndpointAccess) : Except Defect RemoteRequest := do
  return ⟨"DescribeEndpointAccess", .ofMembers [("EndpointName", .string (← e.name))]⟩

/-- A look at the endpoint itself. -/
def describeProbe (target : Target EndpointAccess) : Except Defect (Option Stabilization) := do
  return some { probe := .describe (← target.desired.name) }

namespace Step

/-- Makes the endpoint. -/
def createEndpointAccess : Step EndpointAccess where
  name := "create-endpoint-access"
  request target _ := createRequest target.desired
  stabilization target _ := describeProbe target
  isStable observation _ :=
    match observation with
    | .present description => isActive description
    | .absent => false

/-- Replaces the security groups when their set changed. -/
def modifyEndpointAccess : Step EndpointAccess where
  name := "modify-endpoint-access"
  shouldRun target _ :=
    match target.previous with
    | none => true
    | some previous =>
      !Diff.sameElements target.desired.securityGroups previous.securityGroups
  request target _ := modifyRequest target.desired
  stabilization target _ := describeProbe target
  isStable observation target :=
    match observation with
    | .present description =>
      isActive description
        && Diff.sameElements (ofDescription description).securityGroups
          target.desired.securityGroups
    | .absent => false

/-- Removes the endpoint. -/
def deleteEndpointAccess : Step EndpointAccess where
  name := "delete-endpoint-access"
  request target _ := deleteRequest target.desired
  stabilization target _ := describeProbe target
  isStable observation _ := !observation.isPresent

/-- Reads the description of the endpoint; an answer without an endpoint changes nothing. -/
def describeEndpointAccess : Step EndpointAccess where
  name := "describe-endpoint-access"
  request target _ := describeRequest target.desired
  capture response r :=
    match firstDescribed? response with
    | some description => r.withModel (ofDescription description)
    | none => r

end Step

/-- Fault codes of endpoint requests; a cluster that is not there is a bad reference here. -/
def faults : FaultTable :=
  FaultTable.common
    |>.terminal ["EndpointAlreadyExists"] .alreadyExists
    |>.terminal ["EndpointNotFound"] .notFound
    |>.terminal ["InvalidEndpointState", "InvalidClusterState", "ClusterNotFound",
      "ClusterSubnetGroupNotFound", "InvalidClusterSecurityGroupState", "UnsupportedOperation",
      "InvalidAuthorizationState"] .invalidRequest
    |>.terminal ["EndpointsPerClusterLimitExceeded", "EndpointsPerAuthorizationLimitExceeded"]
      .serviceLimitExceeded
    |>.terminal ["AccessToClusterDenied"] .accessDenied

/-- The chain of an operation. -/
def chain (s : Settings) : Operation → Option (Chain EndpointAccess)
  | .create => some
    { operation := "create", config := s.chainConfig,
      steps := [Step.createEndpointAccess, Step.describeEndpointAccess] }
  | .update => some
    { operation := "update", config := s.chainConfig,
      steps := [Step.modifyEndpointAccess, Step.describeEndpointAccess] }
  | .delete => some
    { operation := "delete", config := s.chainConfig.deleting,
      steps := [Step.deleteEndpointAccess] }
  | .read => some
    { operation := "read", config := s.chainConfig, steps := [Step.describeEndpointAccess] }
  | .list => none

/-- Why a desired endpoint is of no use for an operation, if it is not. -/
def refusal (operation : Operation) (e : EndpointAccess) : Option String :=
  if e.endpointName.isNone then some "EndpointName is required"
  else if operation = .create ∧ (e.clusterIdentifier.isNone ∨ e.subnetGroupName.isNone) then
    some "ClusterIdentifier and SubnetGroupName are required"
  else none

/-- An endpoint that an operation takes on has a name. -/
theorem isSome_of_refusal {operation : Operation} {e : EndpointAccess}
    (h : refusal operation e = none) : e.endpointName.isSome = true := by
  cases hname : e.endpointName with
  | some => rfl
  | none => simp [refusal, hname] at h

/-- The endpoint family under given settings. -/
def family (s : Settings) : Family EndpointAccess where
  typeName := "AWS::Redshift::EndpointAccess"
  faults := faults
  refusal := refusal
  chain := chain s
  listRequest token :=
    ⟨"DescribeEndpointAccess", .ofPresent [("Marker", token.map .string)]⟩
  listPage response :=
    { models := ofPage response, nextToken := response.stringAt? "Marker" }

end Lifecycle.EndpointAccess
