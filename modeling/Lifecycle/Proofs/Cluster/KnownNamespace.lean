import Lifecycle.Proofs.Cluster.Steps
import Lifecycle.Proofs.Hooks
import Lifecycle.Proofs.Invocations
import Lifecycle.Proofs.Ordering

/-!
# When the namespace of a cluster is known

A step may find the namespace, but none forgets it (`keeps_known`). The step that looks
it up is complete only when it is known, and as long as the step is suspended it is not
(`known_of_completed`, `unknown_of_suspended`). So once a pass is past this step, the
namespace is known if the policy is to change (`known_of_mem_front`).
-/

namespace Lifecycle.Cluster

open Json ProgressRecord Chain

variable {s : Settings} {scope : ResourceScope} {target : Target Cluster}
  {r r' : ProgressRecord Cluster}

/-- The namespace of the cluster is known. -/
def Known (target : Target Cluster) (r : ProgressRecord Cluster) : Prop :=
  (knownNamespace? target r).isSome = true

/-- Whether the policy is to change in a way that takes the namespace. -/
def needsNamespace (target : Target Cluster) : Bool :=
  if target.isCreate then target.desired.namespaceResourcePolicy.isSome else policyChanged target

/-- Whether there is a policy to be removed. -/
def removesPolicy (target : Target Cluster) : Bool :=
  match target.previous with
  | some previous =>
    previous.namespaceResourcePolicy.isSome && target.desired.namespaceResourcePolicy.isNone
  | none => target.desired.namespaceResourcePolicy.isSome

/-- The namespace is not known when nobody tells it. -/
theorem unknown_iff : ¬Known target r ↔ knownNamespace? target r = none :=
  Option.not_isSome_iff_eq_none

/-- The namespace is looked up when it is needed and not known. -/
theorem shouldRun_resolveNamespace :
    Step.resolveNamespace.shouldRun target r = true ↔
      needsNamespace target = true ∧ ¬Known target r := by
  rw [unknown_iff, ← Option.isNone_iff_eq_none, ← Bool.and_eq_true]
  rfl

/-- The policy is removed when there is one to be removed and the namespace is known. -/
theorem shouldRun_deletePolicy :
    Step.deleteResourcePolicy.shouldRun target r = true ↔
      removesPolicy target = true ∧ Known target r := by
  rw [Known, ← Bool.and_eq_true]
  rfl

/-- Without a previous model the desired policy is attached, if there is one. -/
theorem shouldRun_putPolicy_none {desired : Cluster} :
    Step.putResourcePolicy.shouldRun ⟨desired, none⟩ r = true ↔
      desired.namespaceResourcePolicy.isSome = true := by
  simp [Step.putResourcePolicy, policyChanged]

/-- Attaching a policy takes the namespace. -/
theorem needsNamespace_of_put (h : Step.putResourcePolicy.shouldRun target r = true) :
    needsNamespace target = true := by
  simp only [Step.putResourcePolicy, Bool.and_eq_true] at h
  rw [needsNamespace]
  split
  · exact h.1
  · exact h.2

/-- Removing a policy takes the namespace. -/
theorem needsNamespace_of_removes (h : removesPolicy target = true) :
    needsNamespace target = true := by
  rcases target with ⟨desired, _ | previous⟩
  · exact h
  · simp only [removesPolicy, Bool.and_eq_true, Option.isNone_iff_eq_none,
      Option.isSome_iff_exists] at h
    obtain ⟨⟨policy, hprevious⟩, hdesired⟩ := h
    simp only [needsNamespace, Target.isCreate, policyChanged, hprevious, hdesired]
    rfl

/-- The namespace to name in a request is the one that is known. -/
theorem knownNamespace_eq_ok_iff {arn : String} :
    knownNamespace target r = .ok arn ↔ knownNamespace? target r = some arn := by
  rw [knownNamespace]
  cases hknown : knownNamespace? target r with
  | some known => simp
  | none =>
    have hunknown : r.identifier? namespaceKey = none := by
      cases hid : r.identifier? namespaceKey with
      | none => rfl
      | some => simp [knownNamespace?, hid] at hknown
    simp [identifier, hunknown]

/-- What is known is a matter of the identifiers alone. -/
theorem known_congr (h : r'.identifiers = r.identifiers) : Known target r' ↔ Known target r := by
  simp only [Known, knownNamespace?, identifier?, h]

/-- The namespace is known after an answer if it was before, or if the answer tells it. -/
theorem known_rememberNamespace (response : Value) :
    Known target (rememberNamespace response r) ↔
      Known target r ∨ (namespaceArn? response).isSome = true := by
  rw [rememberNamespace]
  cases namespaceArn? response with
  | none => simp
  | some arn => simp [Known, knownNamespace?, identifier?, remember]

/-- No hook of a step makes the namespace forgotten. -/
theorem keeps_known (target : Target Cluster) :
    ∀ step ∈ steps s scope, step.Keeps (Known target) := by
  have hremember : ∀ response r, Known target r → Known target (rememberNamespace response r) :=
    fun response r h => (known_rememberNamespace response).mpr (.inl h)
  have hcreated : ∀ coolDown observed r, Known target r →
      Known target (created coolDown observed r).2 := by
    intro coolDown observed r h
    cases observed with
    | none => exact h
    | some description => exact hremember description r h
  apply forall_mem_steps
  case create | restore => exact ⟨hremember, hcreated _⟩
  case resolveNamespace =>
    refine ⟨hremember, ?_⟩
    intro observed r h
    cases observed with
    | none => exact h
    | some page => exact hremember page r h
  case describe =>
    refine ⟨?_, fun _ _ h => h⟩
    intro response r h
    cases hfirst : firstDescribed? response with
    | none => simpa only [Step.describeCluster, hfirst] using h
    | some description =>
      simp only [Step.describeCluster, hfirst]
      exact hremember description r h
  all_goals exact ⟨fun _ _ h => h, fun _ _ h => h⟩

/-- The steps whose requests name the namespace. -/
def policySteps : List String :=
  ["put-resource-policy", "delete-resource-policy", "get-resource-policy"]

section Identified

variable {identifier : String} (hid : target.desired.clusterIdentifier = some identifier)
include hid

/-- A desired model with an identifier tells it. -/
theorem id_eq_ok : target.desired.id = .ok identifier := by
  rw [id, hid]

/-- Every step can make its request, if the identifier is there and, where the request names it, the
namespace is known. -/
theorem exists_request : ∀ step ∈ steps s scope, ∀ r,
    (step.name ∈ policySteps → Known target r) →
      ∃ request, step.request target r = .ok request := by
  apply forall_mem_steps
  case create | restore => exact fun _ _ => ⟨_, rfl⟩
  case putPolicy | deletePolicy | getPolicy =>
    intro r hknown
    obtain ⟨arn, harn⟩ := Option.isSome_iff_exists.mp (hknown (List.mem_of_elem_eq_true rfl))
    simp only [Step.putResourcePolicy, Step.deleteResourcePolicy, Step.getResourcePolicy,
      knownNamespace_eq_ok_iff.mpr harn]
    exact ⟨_, rfl⟩
  all_goals
    intro r _
    simp only [Step.modifyCluster, modifyRequest, Step.deleteTags, Step.createTags,
      Step.disableLogging, Step.enableLogging, Step.configureAqua, Step.resolveNamespace,
      Step.deleteCluster, Step.describeCluster, Step.describeLoggingStatus, id_eq_ok hid]
    exact ⟨_, rfl⟩

/-- Every step can tell how to look for the effect of its request, if the identifier is there. -/
theorem exists_stabilization : ∀ step ∈ steps s scope, ∀ r,
    ∃ l, step.stabilization target r = .ok l := by
  apply forall_mem_steps
  case resolveNamespace =>
    intro r
    simp only [Step.resolveNamespace, id_eq_ok hid]
    cases knownNamespace? target r with
    | some => exact ⟨_, rfl⟩
    | none => exact ⟨_, rfl⟩
  case create | restore | modify | configureAqua | delete | disableLogging | enableLogging =>
    intro r
    simp only [Step.createCluster, Step.restoreFromSnapshot, Step.modifyCluster,
      Step.configureAqua, Step.deleteCluster, Step.disableLogging, Step.enableLogging,
      describeProbe, loggingProbe, id_eq_ok hid]
    exact ⟨_, rfl⟩
  all_goals exact fun _ => ⟨_, rfl⟩

end Identified

/-- Looking the namespace up ends at once exactly when it is known. -/
theorem known_iff_of_stabilization {l : Option Stabilization}
    (h : Step.resolveNamespace.stabilization target r = .ok l) : Known target r ↔ l = none := by
  simp only [Step.resolveNamespace] at h
  cases hknown : knownNamespace? target r with
  | some arn =>
    rw [hknown] at h
    simp [Known, hknown, (Except.ok.inj h).symm]
  | none =>
    rw [hknown] at h
    obtain ⟨_, _, rfl⟩ := exists_eq_of_bind h
    simp [Known, hknown]

section Visits

variable {config : ChainConfig} {faults : FaultTable} {remote : Remote} {past gained : Journal}

/-- No visit to a step makes the namespace forgotten. -/
theorem known_of_visited {step : Step Cluster} (hstep : step ∈ steps s scope)
    {result : Except Defect (Except (Outcome Cluster) (ProgressRecord Cluster))}
    (h : Visited faults config remote target step r past result gained)
    (hleft : recordLeft? result = some r') (hr : Known target r) : Known target r' :=
  h.keeps (fun _ _ hr _ hids => (known_congr hids).mpr hr) (keeps_known target step hstep) hleft hr

/-- The namespace is found by looking it up. -/
theorem known_of_completed
    (h : Visited faults config remote target Step.resolveNamespace r past (.ok (.ok r')) gained) :
    Known target r' := by
  cases h with
  | tolerated _ hissued =>
    cases hissued with
    | tolerated _ _ hsuppress => cases hsuppress
  | @shown r₁ r₂ observed _ _ _ _ _ hstabilized hcompleted =>
    have hshown : Known target (Step.resolveNamespace.onComplete observed r₂).2 := by
      cases hstabilized with
      | undeclared hdeclared =>
        exact (known_iff_of_stabilization hdeclared).mpr rfl
      | stable _ hverdict =>
        rcases favourable_of_verdict hverdict with ⟨page, _, rfl, htells⟩ | ⟨_, _, habsent⟩
        · exact (known_rememberNamespace page).mpr (.inr htells)
        · cases habsent
    cases hcompleted with
    | advanced hcompletion =>
      rw [hcompletion] at hshown
      exact (known_congr rfl).mp hshown

/-- As long as the namespace is looked up in vain it is not known. -/
theorem unknown_of_suspended {outcome : Outcome Cluster}
    (h : Visited faults config remote target Step.resolveNamespace r past (.ok (.error outcome))
      gained)
    (hleft : outcome.progress? = some r') (hr : ¬Known target r) : ¬Known target r' := by
  have hunmarked : Unmarked fun r => ¬Known target r :=
    fun _ _ hr _ hids => mt (known_congr hids).mp hr
  cases h with
  | halted _ hissued => exact hissued.keeps hunmarked hleft hr
  | @unstable r₁ _ _ _ _ hstabilized =>
    refine hstabilized.keeps_of_suspended hunmarked hleft ?_
    cases hstabilized with
    | refused hdeclared => simp [known_iff_of_stabilization hdeclared]
    | pending hdeclared => simp [known_iff_of_stabilization hdeclared]
  | @shown _ r₂ observed _ _ _ _ _ _ hcompleted =>
    cases hcompleted with
    | cooling hcompletion =>
      cases observed <;> cases hcompletion

end Visits

/-- A pass starts with the namespace known exactly when it was known before. -/
theorem known_seed {target' : Target Cluster} : Known target (seed target' r) ↔ Known target r :=
  known_congr (identifiers_seed _ _)

section Runs

variable {operation : Operation} {run : Run Cluster} {n : Nat} {step : Step Cluster}
  {rest front : List (Step Cluster)} {past gained : Journal}
  (hrun : (family s scope).CarriesOut operation target run)
include hrun

/-- When the step that looks the namespace up is complete, the namespace is known. -/
theorem known_of_isDone (hresolve : Step.resolveNamespace ∈ run.chain.steps)
    (harrives : run.Arrives n rest r past)
    (hdone : r.isDone Step.resolveNamespace.name = true) : Known target r := by
  have hnames := namesApart hrun.chain
  refine harrives.invariant (I := fun r _ => r.isDone Step.resolveNamespace.name = true →
    Known target r) ?_ ?_ ?_ hdone
  · intro hdone
    rw [isDone, flag_seed, hrun.start, flag_empty] at hdone
    cases hdone
  · intro n r past ih hdone
    rw [isDone, flag_seed] at hdone
    exact known_seed.mpr (ih hdone)
  · intro n step rest r r' past result gained harrives _ hvisited hleft ih hdone
    have hstep := mem_steps_of_chain hrun.chain harrives.mem
    have hkeeps := keepsMarks step hstep
    simp only [Run.Visits, hrun.targets] at hvisited
    by_cases hname : Step.resolveNamespace.name = step.name
    · obtain rfl := hnames.eq_of_name_eq hresolve harrives.mem hname
      rcases result with defect | outcome | r''
      · cases hleft
      · rw [hvisited.isDone_eq_of_suspended hkeeps hleft] at hdone
        exact known_of_visited hstep hvisited hleft (ih hdone)
      · obtain rfl := Option.some.inj hleft
        exact known_of_completed hvisited
    · have hflag := (hvisited.marks hkeeps hleft).flag_eq
        (hnames.done_ne hresolve harrives.mem hname)
      exact known_of_visited hstep hvisited hleft (ih (hflag.symm.trans hdone))

/-- Once a pass is past the step that looks the namespace up, the namespace is known if it is
needed. -/
theorem known_of_mem_front (hneeds : needsNamespace target = true)
    (harrives : run.Arrives n rest r past) (hfront : run.chain.steps = front ++ rest)
    (hmem : Step.resolveNamespace ∈ front) : Known target r := by
  refine harrives.of_mem_front (I := Known target) ?_ ?_ ?_ hfront hmem
  · intro n rest r past harrives hover
    by_contra hunknown
    rw [takesUp, hrun.targets, shouldRun_resolveNamespace.mpr ⟨hneeds, hunknown⟩, Bool.and_true,
      Bool.not_eq_false'] at hover
    exact hunknown (known_of_isDone hrun harrives.mem harrives hover)
  · intro n rest r r' past gained _ hvisited
    simp only [Run.Visits, hrun.targets] at hvisited
    exact known_of_completed hvisited
  · intro n step rest r r' past gained harrives hvisited hknown
    simp only [Run.Visits, hrun.targets] at hvisited
    exact known_of_visited (mem_steps_of_chain hrun.chain harrives.mem) hvisited rfl hknown

end Runs

end Lifecycle.Cluster
