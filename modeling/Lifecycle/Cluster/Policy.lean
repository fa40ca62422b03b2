import Lifecycle.Cluster.Namespace

/-!
# The resource policy of a cluster

The policy hangs on the namespace of the cluster. The service keeps it as a text:
a policy document is sent as its JSON text, a policy that is a text already is sent
as it is.
-/

namespace Lifecycle.Cluster

open Json

/-- The text in which the service keeps a policy. -/
def policyText : Value → String
  | .string text => text
  | policy => policy.text

/-- The request that attaches a policy. -/
def putPolicyRequest (arn : String) (policy : Value) : RemoteRequest :=
  ⟨"PutResourcePolicy", .ofMembers [
    ("ResourceArn", .string arn),
    ("Policy", .string (policyText policy))]⟩

/-- The request that reads the policy. -/
def getPolicyRequest (arn : String) : RemoteRequest :=
  ⟨"GetResourcePolicy", .ofMembers [("ResourceArn", .string arn)]⟩

/-- The request that removes the policy. -/
def deletePolicyRequest (arn : String) : RemoteRequest :=
  ⟨"DeleteResourcePolicy", .ofMembers [("ResourceArn", .string arn)]⟩

namespace Step

/-- Attaches the desired policy when it is another one than before. -/
def putResourcePolicy : Step Cluster where
  name := "put-resource-policy"
  shouldRun target _ := target.desired.namespaceResourcePolicy.isSome && policyChanged target
  request target r := do
    return putPolicyRequest (← knownNamespace target r)
      (target.desired.namespaceResourcePolicy.getD .null)

/-- Name of the step that removes the policy. -/
def deleteResourcePolicyName : String := "delete-resource-policy"

/-- Removes the policy that is not wanted any more; without a previous model, the one the desired
model has, because then the cluster itself is to go. A policy that is gone already counts as
removed. -/
def deleteResourcePolicy : Step Cluster where
  name := deleteResourcePolicyName
  shouldRun target r :=
    (match target.previous with
      | some previous =>
        previous.namespaceResourcePolicy.isSome && target.desired.namespaceResourcePolicy.isNone
      | none => target.desired.namespaceResourcePolicy.isSome)
      && (knownNamespace? target r).isSome
  request target r := do return deletePolicyRequest (← knownNamespace target r)
  suppress fault _ := fault.isNotFound

end Step

end Lifecycle.Cluster
