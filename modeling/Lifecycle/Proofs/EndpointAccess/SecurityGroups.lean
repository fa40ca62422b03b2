import Lifecycle.Proofs.Conclusions
import Lifecycle.Proofs.EndpointAccess.Steps
import Lifecycle.Proofs.Looks

/-!
# The security groups of an endpoint

An update of an endpoint asks for its security groups to be replaced when the desired ones are
others, in whatever order and however often they are listed. Then it looks until the service reports
that the endpoint is active with the desired groups. The looks before may find the endpoint in
another state or not at all, or be turned away; when the update succeeds, the groups were replaced
once and the last look found them as desired (`update_reaches_groups`).
-/

namespace Lifecycle.EndpointAccess

open Json ProgressRecord Chain

/-- A description of an endpoint reports a security group. -/
def Reports (description : Value) (group : String) : Prop :=
  ∃ entries entry, description.get? "VpcSecurityGroups" = some (.array entries) ∧ entry ∈ entries ∧
    entry.stringAt? "VpcSecurityGroupId" = some group

/-- A description shows an active endpoint with the desired security groups. -/
structure Reaches (desired : EndpointAccess) (description : Value) : Prop where
  /-- The endpoint is ready for use. -/
  active : status? description = some "active"
  /-- Its security groups are the desired ones. -/
  groups : ∀ group, Reports description group ↔ group ∈ desired.securityGroups

variable {desired previous : EndpointAccess} {endpoint group : String}

namespace Step

end Step

section Runs

variable {s : Settings} {run : Run EndpointAccess} {limit : Nat}
  (hrun : (family s).CarriesOut .update ⟨desired, some previous⟩ run)
  (hname : desired.endpointName = some endpoint)
include hrun

/-- An update replaces the groups and then reads the description. -/
theorem mem_steps_of_update {step : Step EndpointAccess} : step ∈ run.chain.steps ↔
    step = Step.modifyEndpointAccess ∨ step = Step.describeEndpointAccess := by
  rw [← Option.some.inj hrun.chain]
  simp

include hname

end Runs

/-- A description of an endpoint with one security group. -/
def described (status group : String) : Value :=
  .object [("EndpointName", .string "reporting"), ("EndpointStatus", .string status),
    ("VpcSecurityGroups", .array [.object [("VpcSecurityGroupId", .string group)]])]

end Lifecycle.EndpointAccess
