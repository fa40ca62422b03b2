import Lifecycle.Proofs.Cluster.Steps
import Lifecycle.Proofs.Models

/-!
# The policy in the record of a cluster

A cluster that is described has no policy until the policy is read, and reading the
policy is the last thing that a chain does. So the record of a suspended operation
has the policy that the operation began with, or none.
-/

namespace Lifecycle.Cluster

open Json ProgressRecord Chain

variable {s : Settings} {scope : ResourceScope} {P : Value → Prop}

/-- What holds of the policy of a cluster, where it has one. -/
def Policies (P : Value → Prop) (c : Cluster) : Prop := ∀ policy ∈ c.namespaceResourcePolicy, P policy

theorem model_rememberNamespace (response : Value) (r : ProgressRecord Cluster) :
    (rememberNamespace response r).model = r.model := by
  unfold rememberNamespace
  cases namespaceArn? response <;> rfl

theorem model_created (coolDown : UInt64) (observed : Option Value) (r : ProgressRecord Cluster) :
    (created coolDown observed r).2.model = r.model := by
  cases observed with
  | none => rfl
  | some description => exact model_rememberNamespace description r

/-- A change of the model that keeps a property of the policy, and brings in none of its own. -/
theorem models_updateModel {f : Cluster → Cluster}
    (hf : ∀ model, Policies P model → Policies P (f model)) {r : ProgressRecord Cluster}
    (hr : r.Models (Policies P)) : (updateModel f r).Models (Policies P) := by
  rintro _ ⟨⟩
  refine hf _ ?_
  cases hmodel : r.model with
  | none => exact nofun
  | some model => exact hr model hmodel

/-- Reading the policy is the one hook that may bring in a policy, and nothing is waited for after
it. -/
theorem keepsModels_or_immediate : ∀ step ∈ steps s scope, step.KeepsModels (Policies P) ∨
    step.name = Step.getResourcePolicy.name ∧ step.Immediate := by
  have hplain : ∀ {step : Step Cluster}, (∀ response r, (step.capture response r).model = r.model) →
      (∀ observed r, (step.onComplete observed r).2.model = r.model) →
      step.KeepsModels (Policies P) := by
    intro step hcapture hcomplete
    exact ⟨fun response r hr => hr.congr (hcapture response r),
      fun observed r hr => hr.congr (hcomplete observed r)⟩
  apply forall_mem_steps
  case create | restore => exact .inl (hplain model_rememberNamespace (model_created _))
  case resolveNamespace =>
    refine .inl (hplain model_rememberNamespace ?_)
    intro observed r
    cases observed with
    | none => rfl
    | some page => exact model_rememberNamespace page r
  case describe =>
    refine .inl ⟨?_, fun _ _ hr => hr⟩
    intro response r hr
    cases hfirst : firstDescribed? response with
    | none => simpa [Step.describeCluster, hfirst] using hr
    | some description =>
      simp only [Step.describeCluster, hfirst]
      refine models_updateModel ?_ (hr.congr (model_rememberNamespace description r))
      rintro _ _ _ ⟨⟩
  case describeLogging =>
    refine .inl ⟨fun response r hr => models_updateModel ?_ hr, fun _ _ hr => hr⟩
    exact fun _ h => h
  case getPolicy => exact .inr ⟨rfl, fun _ _ => rfl, fun _ _ => rfl⟩
  all_goals exact .inl (hplain (fun _ _ => rfl) (fun _ _ => rfl))

/-- Only the last one of the steps reads the policy. -/
theorem name_ne_of_mem_dropLast {step : Step Cluster} (hstep : step ∈ (steps s scope).dropLast) :
    step.name ≠ Step.getResourcePolicy.name := by
  have hname : step.name ∈ ((steps s scope).map (·.name)).dropLast := by
    rw [← List.map_dropLast]
    exact List.mem_map_of_mem hstep
  intro heq
  rw [names_steps, heq] at hname
  exact absurd hname (by decide)

/-- The policy of a suspended operation is one that the operation began with. -/
theorem keepsModels {operation : Operation} {chain : Chain Cluster}
    (hchain : (family s scope).chain operation = some chain) :
    chain.KeepsModels (Policies P) := by
  have hinit : chain.steps.dropLast.Sublist (steps s scope).dropLast := by
    cases operation with
    | list => cases hchain
    | _ =>
      obtain rfl := Option.some.inj hchain
      repeat (first | exact .slnil | apply List.Sublist.cons_cons | apply List.Sublist.cons)
  refine ⟨fun step hstep => ?_, fun step hstep => ?_⟩
  · have hmem := hinit.subset hstep
    rcases keepsModels_or_immediate step (List.dropLast_subset _ hmem) with hkeeps | ⟨hname, _⟩
    · exact hkeeps
    · exact absurd hname (name_ne_of_mem_dropLast hmem)
  · exact (keepsModels_or_immediate step
      (mem_steps_of_chain hchain (List.mem_of_getLast? hstep))).imp_right And.right

end Lifecycle.Cluster
