import Lifecycle.EndpointAccess.Family
import Lifecycle.Proofs.Invocations
import Lifecycle.Proofs.Verdicts

/-!
# The steps of the endpoint family

The chains of the family are made of four steps. Their names keep their marks apart,
and their gates look at the target alone.
-/

namespace Lifecycle.EndpointAccess

open Json ProgressRecord Chain

/-- The steps of all chains of the family. -/
def steps : List (Step EndpointAccess) :=
  [ Step.createEndpointAccess,
    Step.modifyEndpointAccess,
    Step.deleteEndpointAccess,
    Step.describeEndpointAccess ]

variable {s : Settings} {operation : Operation} {chain : Chain EndpointAccess}

/-- Every chain of the family has some of the steps, in their order. -/
theorem sublist_steps (hchain : (family s).chain operation = some chain) :
    chain.steps.Sublist steps := by
  cases operation with
  | list => cases hchain
  | _ =>
    obtain rfl := Option.some.inj hchain
    repeat (first | exact .slnil | apply List.Sublist.cons_cons | apply List.Sublist.cons)

/-- The steps of a chain are among those in the list. -/
theorem mem_steps_of_chain (hchain : (family s).chain operation = some chain)
    {step : Step EndpointAccess} (hstep : step ∈ chain.steps) : step ∈ steps :=
  (sublist_steps hchain).subset hstep

/-- What holds of each of the steps, by the names they go by. -/
theorem forall_mem_steps {P : Step EndpointAccess → Prop} (create : P Step.createEndpointAccess)
    (modify : P Step.modifyEndpointAccess) (delete : P Step.deleteEndpointAccess)
    (describe : P Step.describeEndpointAccess) : ∀ step ∈ steps, P step := by
  simp only [steps, List.forall_mem_cons]
  exact ⟨create, modify, delete, describe, nofun⟩

/-- The names of the steps. -/
theorem names_steps : steps.map (·.name) =
    ["create-endpoint-access", "modify-endpoint-access", "delete-endpoint-access",
      "describe-endpoint-access"] := rfl

/-- In each chain the names of the steps keep their marks apart. -/
theorem namesApart (hchain : (family s).chain operation = some chain) : chain.NamesApart := by
  have hsublist := (sublist_steps hchain).map (·.name)
  rw [names_steps] at hsublist
  exact .of_sublist hsublist (by decide +kernel) (by decide +kernel) (by decide +kernel)

/-- The gates of all steps look at the target alone. -/
theorem fixedGate : ∀ step ∈ steps, step.FixedGate := by
  apply forall_mem_steps <;> exact fun _ _ _ => rfl

/-- The hooks of all steps leave the marks alone. -/
theorem keepsMarks : ∀ step ∈ steps, step.KeepsMarks := by
  apply forall_mem_steps
  case describe =>
    refine ⟨?_, fun _ _ => rfl⟩
    intro response r
    cases hfirst : firstDescribed? response <;> simp [Step.describeEndpointAccess, hfirst, withModel]
  all_goals exact ⟨fun _ _ => rfl, fun _ _ => rfl⟩

/-- No step lives with a fault. -/
theorem suppress_eq_false : ∀ step ∈ steps, ∀ fault target, step.suppress fault target = false := by
  apply forall_mem_steps <;> exact fun _ _ => rfl

/-- A model with a name tells it. -/
theorem name_eq_ok {e : EndpointAccess} {endpoint : String}
    (hname : e.endpointName = some endpoint) : e.name = .ok endpoint := by
  rw [name, hname]

section Named

variable {target : Target EndpointAccess} {endpoint : String}
  (hname : target.desired.endpointName = some endpoint)
include hname

/-- The steps look at the endpoint itself. -/
theorem describeProbe_eq_ok :
    describeProbe target = .ok (some { probe := .describe endpoint }) := by
  rw [describeProbe, name_eq_ok hname]
  rfl

/-- Every step can make its request and tell how to look for the effect, if the name is there. -/
theorem exists_request : ∀ step ∈ steps, ∀ r, (∃ request, step.request target r = .ok request) ∧
    ∀ r', ∃ l, step.stabilization target r' = .ok l := by
  apply forall_mem_steps <;>
  · intro r
    simp only [Step.createEndpointAccess, Step.modifyEndpointAccess, Step.deleteEndpointAccess,
      Step.describeEndpointAccess, createRequest, modifyRequest, deleteRequest, describeRequest,
      describeProbe_eq_ok hname, name_eq_ok hname]
    exact ⟨⟨_, rfl⟩, fun _ => ⟨_, rfl⟩⟩

end Named

section Runs

variable {target : Target EndpointAccess} {run : Run EndpointAccess}
  (hrun : (family s).CarriesOut operation target run)
include hrun

/-- The hooks of the steps of a run of the family leave the marks alone. -/
theorem keepsMarks_run : ∀ step ∈ run.chain.steps, step.KeepsMarks :=
  fun step hstep => keepsMarks step (mem_steps_of_chain hrun.chain hstep)

/-- No pass stops at a defect, if the desired model has a name. -/
theorem exists_outcome {endpoint : String} (hname : target.desired.endpointName = some endpoint)
    {n : Nat} {result : Except Defect (Outcome EndpointAccess)} {journal : Journal}
    (hends : run.Ends n result journal) : ∃ outcome, result = .ok outcome := by
  refine hends.exists_outcome ?_
  intro n step rest r past harrives _
  rw [hrun.targets]
  exact exists_request hname step (mem_steps_of_chain hrun.chain harrives.mem) r

/-- The gates of the runs of the family are stable. -/
theorem stableGates : run.StableGates := by
  refine Run.stableGates_of_verdicts (namesApart hrun.chain) fun step hstep => ?_
  have hfixed := fixedGate step (mem_steps_of_chain hrun.chain hstep)
  exact ⟨_, Run.verdict_of_fixedGate hfixed hrun.targets .empty⟩

end Runs

end Lifecycle.EndpointAccess
