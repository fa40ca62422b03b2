import Lifecycle.Proofs.Cluster.Fulfillment

/-!
# What an update changes

An update that is told the previous model carries out exactly the operations that the two
models differ in (`update_applies_differences`): it makes no other call that changes
something, and has made each of these once when it succeeds.
-/

namespace Lifecycle.Cluster

open Json ProgressRecord Chain

/-- The operations that two models differ in. -/
inductive Differs (desired previous : Cluster) : String → Prop
  /-- A tracked attribute differs. -/
  | attributes (h : modifiedAttributes desired previous ≠ []) :
      Differs desired previous "ModifyCluster"
  /-- A tag has a key that is not wanted any more. -/
  | removedTags {tag : Tag} (htag : tag ∈ previous.tagList)
      (hunwanted : ∀ wanted ∈ desired.tagList, wanted.key ≠ tag.key) :
      Differs desired previous "DeleteTags"
  /-- A tag is wanted that is not there. -/
  | addedTags {tag : Tag} (htag : tag ∈ desired.tagList) (hnew : tag ∉ previous.tagList) :
      Differs desired previous "CreateTags"
  /-- Logging is not wanted any more. -/
  | loggingOff (hprevious : previous.loggingProperties.isSome = true)
      (hdesired : desired.loggingProperties = none) : Differs desired previous "DisableLogging"
  /-- Logging is wanted, and not as it is. -/
  | loggingOn (hdesired : desired.loggingProperties.isSome = true)
      (hother : desired.loggingProperties ≠ previous.loggingProperties) :
      Differs desired previous "EnableLogging"
  /-- Query acceleration is wanted, and not as it is. -/
  | acceleration (hdesired : desired.aquaConfigurationStatus.isSome = true)
      (hother : desired.aquaConfigurationStatus ≠ previous.aquaConfigurationStatus) :
      Differs desired previous "ModifyAquaConfiguration"
  /-- A policy is wanted that is not the one there is. -/
  | policy (hdesired : desired.namespaceResourcePolicy.isSome = true)
      (hother : (desired.namespaceResourcePolicy != previous.namespaceResourcePolicy) = true) :
      Differs desired previous "PutResourcePolicy"
  /-- The policy is not wanted any more. -/
  | noPolicy (hprevious : previous.namespaceResourcePolicy.isSome = true)
      (hdesired : desired.namespaceResourcePolicy = none) :
      Differs desired previous "DeleteResourcePolicy"

variable {s : Settings} {scope : ResourceScope} {desired previous : Cluster} {operation : String}
  {r : ProgressRecord Cluster}

/-- What two models differ in is not a matter of reading. -/
theorem Differs.isReading_eq_false (h : Differs desired previous operation) :
    ∀ request, request.operation = operation → isReading (.invoke request) = false := by
  cases h <;>
  · rintro ⟨_, _⟩ rfl
    rfl

section Gates

/-- A list lacks something of another one when an element of that is not in it. -/
theorem missing_iff {α : Type} [BEq α] [LawfulBEq α] {a b : List α} :
    (!(Diff.missing a b).isEmpty) = true ↔ ∃ x ∈ a, x ∉ b := by
  rw [Bool.not_eq_true', List.isEmpty_eq_false_iff_exists_mem]
  exact exists_congr fun x => Diff.mem_missing

theorem shouldRun_modifyCluster {least : UInt32} {polling : BackoffPolicy} :
    (Step.modifyCluster least polling).shouldRun ⟨desired, some previous⟩ r = true ↔
      modifiedAttributes desired previous ≠ [] := by
  simp [Step.modifyCluster]

theorem shouldRun_deleteTags :
    (Step.deleteTags scope).shouldRun ⟨desired, some previous⟩ r = true ↔
      ∃ tag ∈ previous.tagList, ∀ wanted ∈ desired.tagList, wanted.key ≠ tag.key := by
  simp only [Step.deleteTags, tagKeysToRemove, missing_iff, List.mem_map, not_exists, not_and,
    exists_exists_and_eq_and, ne_eq]

theorem shouldRun_createTags :
    (Step.createTags scope).shouldRun ⟨desired, some previous⟩ r = true ↔
      ∃ tag ∈ desired.tagList, tag ∉ previous.tagList := by
  simp only [Step.createTags, tagsToAdd, Target.isCreate, Option.isNone_some, Bool.not_false,
    Bool.true_or, Bool.true_and, missing_iff]
  rfl

theorem shouldRun_disableLogging :
    Step.disableLogging.shouldRun ⟨desired, some previous⟩ r = true ↔
      previous.loggingProperties.isSome = true ∧ desired.loggingProperties = none := by
  simp [Step.disableLogging, and_comm]

theorem shouldRun_enableLogging :
    Step.enableLogging.shouldRun ⟨desired, some previous⟩ r = true ↔
      desired.loggingProperties.isSome = true ∧
        desired.loggingProperties ≠ previous.loggingProperties := by
  simp [Step.enableLogging, Diff.valueChanged]

theorem shouldRun_configureAqua {least : UInt32} {polling : BackoffPolicy} :
    (Step.configureAqua least polling).shouldRun ⟨desired, some previous⟩ r = true ↔
      desired.aquaConfigurationStatus.isSome = true ∧
        desired.aquaConfigurationStatus ≠ previous.aquaConfigurationStatus := by
  simp [Step.configureAqua]

theorem shouldRun_putPolicy :
    Step.putResourcePolicy.shouldRun ⟨desired, some previous⟩ r = true ↔
      desired.namespaceResourcePolicy.isSome = true ∧
        (desired.namespaceResourcePolicy != previous.namespaceResourcePolicy) = true := by
  simp [Step.putResourcePolicy, policyChanged]

/-- A policy of the previous model is to be removed when the desired model has none. -/
theorem removesPolicy_iff :
    removesPolicy ⟨desired, some previous⟩ = true ↔
      previous.namespaceResourcePolicy.isSome = true ∧ desired.namespaceResourcePolicy = none := by
  simp [removesPolicy]

end Gates

/-- Models whose policies differ differ in an operation. -/
theorem exists_differs_of_policyChanged (h : policyChanged ⟨desired, some previous⟩ = true) :
    ∃ operation, Differs desired previous operation := by
  cases hdesired : desired.namespaceResourcePolicy with
  | some policy => exact ⟨_, .policy (by simp [hdesired]) h⟩
  | none =>
    cases hprevious : previous.namespaceResourcePolicy with
    | some policy => exact ⟨_, .noPolicy (by simp [hprevious]) hdesired⟩
    | none =>
      simp only [policyChanged, hdesired, hprevious] at h
      cases h

/-- A step of an update that applies reads the cluster back, looks the namespace up for a policy
that differs, or is for an operation that the models differ in. -/
theorem differs_of_shouldRun : ∀ step ∈ (updateChain s scope).steps, ∀ r,
    step.shouldRun ⟨desired, some previous⟩ r = true →
    step ∈ readBack ∨
      step = Step.resolveNamespace ∧ policyChanged ⟨desired, some previous⟩ = true ∨
      ∃ operation, (step.name, operation) ∈ operations ∧ Differs desired previous operation := by
  have hdiffers : ∀ {step : Step Cluster} {operation : String},
      operations.contains (step.name, operation) = true → Differs desired previous operation →
      step ∈ readBack ∨
        step = Step.resolveNamespace ∧ policyChanged ⟨desired, some previous⟩ = true ∨
        ∃ operation, (step.name, operation) ∈ operations ∧ Differs desired previous operation :=
    fun hown h => .inr (.inr ⟨_, List.mem_of_elem_eq_true hown, h⟩)
  simp only [updateChain, List.cons_append, List.nil_append, List.forall_mem_cons]
  refine ⟨?modify, ?deleteTags, ?createTags, ?disableLogging, ?enableLogging, ?configureAqua,
    ?resolveNamespace, ?putPolicy, ?deletePolicy, fun _ hback _ _ => .inl hback⟩
  case resolveNamespace =>
    intro r happlies
    exact .inr (.inl ⟨trivial, (shouldRun_resolveNamespace.mp happlies).1⟩)
  all_goals intro r happlies
  case modify => exact hdiffers rfl (.attributes (shouldRun_modifyCluster.mp happlies))
  case deleteTags =>
    obtain ⟨tag, htag, hunwanted⟩ := shouldRun_deleteTags.mp happlies
    exact hdiffers rfl (.removedTags htag hunwanted)
  case createTags =>
    obtain ⟨tag, htag, hnew⟩ := shouldRun_createTags.mp happlies
    exact hdiffers rfl (.addedTags htag hnew)
  case disableLogging =>
    obtain ⟨hprevious, hdesired⟩ := shouldRun_disableLogging.mp happlies
    exact hdiffers rfl (.loggingOff hprevious hdesired)
  case enableLogging =>
    obtain ⟨hdesired, hother⟩ := shouldRun_enableLogging.mp happlies
    exact hdiffers rfl (.loggingOn hdesired hother)
  case configureAqua =>
    obtain ⟨hdesired, hother⟩ := shouldRun_configureAqua.mp happlies
    exact hdiffers rfl (.acceleration hdesired hother)
  case putPolicy =>
    obtain ⟨hdesired, hother⟩ := shouldRun_putPolicy.mp happlies
    exact hdiffers rfl (.policy hdesired hother)
  case deletePolicy =>
    obtain ⟨hprevious, hdesired⟩ := removesPolicy_iff.mp (shouldRun_deletePolicy.mp happlies).1
    exact hdiffers rfl (.noPolicy hprevious hdesired)

/-- The request of a step of an update that applies reads, or is for an operation that the models
differ in. -/
theorem differs_of_request : ∀ step ∈ (updateChain s scope).steps, ∀ r request,
    step.shouldRun ⟨desired, some previous⟩ r = true →
    step.request ⟨desired, some previous⟩ r = .ok request →
    isReading (.invoke request) = true ∨ Differs desired previous request.operation := by
  intro step hstep r request happlies hrequest
  have hchain : (family s scope).chain .update = some (updateChain s scope) := rfl
  have hown := mem_operations step (mem_steps_of_chain hchain hstep) _ r request hrequest
  rcases differs_of_shouldRun step hstep r happlies with
    hback | ⟨rfl, _⟩ | ⟨operation, hoperation, hdiffers⟩
  · left
    simp only [readBack, List.mem_cons, List.not_mem_nil, or_false] at hback
    rcases hback with rfl | rfl | rfl <;>
    · obtain ⟨_, _, rfl⟩ := exists_eq_of_bind hrequest
      rfl
  · left
    obtain ⟨_, _, rfl⟩ := exists_eq_of_bind hrequest
    rfl
  · right
    have hsame := (name_eq_iff hown hoperation hdiffers.isReading_eq_false).mp rfl
    rwa [show request.operation = operation from hsame]

section Runs

variable {run : Run Cluster}
  (hrun : (family s scope).CarriesOut .update ⟨desired, some previous⟩ run)
include hrun

/-- For each operation that the models differ in, the chain has a step that always applies. -/
theorem exists_step_of_differs (h : Differs desired previous operation) :
    ∃ step ∈ run.chain.steps, (step.name, operation) ∈ operations ∧ run.Verdict step true := by
  have hchain : updateChain s scope = run.chain := Option.some.inj hrun.chain
  have hfixed : ∀ {step : Step Cluster}, step.FixedGate →
      step.shouldRun ⟨desired, some previous⟩ .empty = true → run.Verdict step true :=
    fun hfixed => Run.verdict_of_shouldRun hfixed hrun.targets
  rw [← hchain]
  cases h with
  | attributes h =>
    refine ⟨Step.modifyCluster s.patchMinObservations s.modification, by simp [updateChain],
      List.mem_of_elem_eq_true rfl, hfixed (fun _ _ _ => rfl) (shouldRun_modifyCluster.mpr h)⟩
  | removedTags htag hunwanted =>
    refine ⟨Step.deleteTags scope, by simp [updateChain], List.mem_of_elem_eq_true rfl,
      hfixed (fun _ _ _ => rfl) (shouldRun_deleteTags.mpr ⟨_, htag, hunwanted⟩)⟩
  | addedTags htag hnew =>
    refine ⟨Step.createTags scope, by simp [updateChain], List.mem_of_elem_eq_true rfl,
      hfixed (fun _ _ _ => rfl) (shouldRun_createTags.mpr ⟨_, htag, hnew⟩)⟩
  | loggingOff hprevious hdesired =>
    refine ⟨Step.disableLogging, by simp [updateChain], List.mem_of_elem_eq_true rfl,
      hfixed (fun _ _ _ => rfl) (shouldRun_disableLogging.mpr ⟨hprevious, hdesired⟩)⟩
  | loggingOn hdesired hother =>
    refine ⟨Step.enableLogging, by simp [updateChain], List.mem_of_elem_eq_true rfl,
      hfixed (fun _ _ _ => rfl) (shouldRun_enableLogging.mpr ⟨hdesired, hother⟩)⟩
  | acceleration hdesired hother =>
    refine ⟨Step.configureAqua s.aquaMinObservations s.modification, by simp [updateChain],
      List.mem_of_elem_eq_true rfl,
      hfixed (fun _ _ _ => rfl) (shouldRun_configureAqua.mpr ⟨hdesired, hother⟩)⟩
  | policy hdesired hother =>
    refine ⟨Step.putResourcePolicy, by simp [updateChain], List.mem_of_elem_eq_true rfl,
      hfixed (fun _ _ _ => rfl) (shouldRun_putPolicy.mpr ⟨hdesired, hother⟩)⟩
  | noPolicy hprevious hdesired =>
    refine ⟨Step.deleteResourcePolicy, by simp [updateChain], List.mem_of_elem_eq_true rfl, ?_⟩
    intro n rest r past harrives _
    have hremoves := removesPolicy_iff.mpr ⟨hprevious, hdesired⟩
    obtain ⟨front, hfront⟩ := harrives.exists_front
    have hresolve := resolve_mem_front hrun.chain hfront (.inr ⟨rfl, by decide⟩)
    rw [hrun.targets]
    exact shouldRun_deletePolicy.mpr ⟨hremoves,
      known_of_mem_front hrun (needsNamespace_of_removes hremoves) harrives hfront hresolve⟩

end Runs

section Reordered

/-- The models differ at most in the order and repetition of tags, roles and security groups. -/
structure Reordered (desired previous : Cluster) : Prop where
  /-- The tags are the same. -/
  tags : ∀ tag, tag ∈ desired.tagList ↔ tag ∈ previous.tagList
  /-- The roles are the same. -/
  roles : Diff.sameElements? desired.iamRoles previous.iamRoles = true
  /-- The security groups are the same. -/
  groups : Diff.sameElements? desired.vpcSecurityGroupIds previous.vpcSecurityGroupIds = true
  /-- All else is equal. -/
  rest : ({ desired with
    tags := previous.tags
    iamRoles := previous.iamRoles
    vpcSecurityGroupIds := previous.vpcSecurityGroupIds } == previous) = true

/-- Models that differ in order and repetition alone differ in no operation. -/
theorem Reordered.not_differs (h : Reordered desired previous) :
    ¬Differs desired previous operation := by
  have hrest : instBEqCluster.beq _ previous = true := h.rest
  simp only [instBEqCluster.beq, Bool.and_eq_true, beq_iff_eq] at hrest
  obtain ⟨-, -, hpassword, hnodeType, hnodes, hclusterType, -, hversion, hupgrade, htrack, hport,
    hpublic, hencrypted, hkms, -, -, -, -, -, -, hlogging, haqua, hpolicy, -, -⟩ := hrest
  intro hdiffers
  cases hdiffers with
  | attributes hmodified =>
    apply hmodified
    simp [modifiedAttributes, Attribute.plainOnes, Attribute.unorderedOnes, Attribute.plain,
      Attribute.unordered, hpassword, hnodeType, hnodes, hclusterType, hversion, hupgrade, htrack,
      hport, hpublic, hencrypted, hkms, h.roles, h.groups]
  | removedTags htag hunwanted => exact hunwanted _ ((h.tags _).mpr htag) rfl
  | addedTags htag hnew => exact hnew ((h.tags _).mp htag)
  | loggingOff hprevious hdesired =>
    rw [← hlogging, hdesired] at hprevious
    cases hprevious
  | loggingOn _ hother => exact hother hlogging
  | acceleration _ hother => exact hother haqua
  | policy _ hother =>
    rw [bne, hpolicy] at hother
    cases hother
  | noPolicy hprevious hdesired =>
    obtain ⟨policy, hsome⟩ := Option.isSome_iff_exists.mp hprevious
    rw [hdesired, hsome] at hpolicy
    cases hpolicy

end Reordered

/-- An update makes no other call that changes something than for the operations in which the
desired model differs from the previous one. When it succeeds, each of these has been carried out
once. Nothing is changed for the sake of order or repetition. -/
theorem update_applies_differences (s : Settings) (scope : ResourceScope) (remote : Remote)
    {request : HandlerRequest Cluster} {desired previous : Cluster}
    (hupdate : request.operation = .update) (hdesired : request.desired = some desired)
    (hprevious : request.previous = some previous) (hprogress : request.progress = none)
    (limit : Nat) :
    (∀ call ∈ ((family s scope).journal remote request limit).calls, isReading call = true ∨
      ∃ sent, call = .invoke sent ∧ Differs desired previous sent.operation) ∧
    ((family s scope).Succeeds remote request limit →
      ∀ operation, Differs desired previous operation →
        ((family s scope).journal remote request limit).exchanges.countP (fulfills operation) = 1) ∧
    (Reordered desired previous →
      ∀ call ∈ ((family s scope).journal remote request limit).calls, isReading call = true) := by
  rcases Family.journal_eq_nil_or_exists_run (f := family s scope) (by simp [hupdate]) hdesired
    hprogress remote limit with ⟨hnone, hfails⟩ | ⟨run, hrun, hjournal, hends⟩
  · rw [hnone]
    exact ⟨nofun, fun hsucceeds => absurd hsucceeds hfails, nofun⟩
  · rw [hupdate, hprevious] at hrun
    rw [hjournal]
    have hdiffers : ∀ call ∈ (run.journal limit).calls, isReading call = true ∨
        ∃ sent, call = .invoke sent ∧ Differs desired previous sent.operation := by
      intro call
      refine isReading_or_wanted hrun ?_
      rw [← Option.some.inj hrun.chain]
      exact differs_of_request
    refine ⟨hdiffers, ?_, ?_⟩
    · intro hsucceeds operation hoperation
      obtain ⟨n, model, hends⟩ := hends hsucceeds
      obtain ⟨step, hstep, hown, hverdict⟩ := exists_step_of_differs hrun hoperation
      exact countP_fulfills hrun hown hoperation.isReading_eq_false hstep rfl hverdict hends
    · intro hreordered call hcall
      refine (hdiffers call hcall).resolve_right ?_
      rintro ⟨_, _, hdiffers⟩
      exact hreordered.not_differs hdiffers

/-- A cluster with tags. -/
def taggedCluster (tags : List Tag) : Cluster where
  clusterIdentifier := some "analytics"
  tags := some tags

/-- A request to replace the tags of a cluster. -/
def retagRequest (desired previous : List Tag) : HandlerRequest Cluster where
  operation := .update
  desired := some (taggedCluster desired)
  previous := some (taggedCluster previous)

/-- The journal of an update that replaces the tags of a cluster. -/
def retagJournal (desired previous : List Tag) : Journal :=
  (family {} {}).journal ({} : Script).remote (retagRequest desired previous) 1

/-- An update that replaces one of two tags removes the one and adds the other, each once; one that
turns the two tags around and repeats one changes nothing. -/
theorem retag_applies_differences :
    ((retagJournal [⟨"a", "2"⟩, ⟨"c", "1"⟩] [⟨"a", "2"⟩, ⟨"b", "1"⟩]).exchanges.countP
        (fulfills "DeleteTags") = 1 ∧
      (retagJournal [⟨"a", "2"⟩, ⟨"c", "1"⟩] [⟨"a", "2"⟩, ⟨"b", "1"⟩]).exchanges.countP
        (fulfills "CreateTags") = 1) ∧
    ∀ call ∈ (retagJournal [⟨"b", "1"⟩, ⟨"a", "2"⟩, ⟨"b", "1"⟩] [⟨"a", "2"⟩, ⟨"b", "1"⟩]).calls,
      isReading call = true := by
  constructor
  · have hsuccess := (update_applies_differences {} {} ({} : Script).remote
      (show (retagRequest [⟨"a", "2"⟩, ⟨"c", "1"⟩] [⟨"a", "2"⟩, ⟨"b", "1"⟩]).operation = .update
        from rfl) rfl rfl rfl 1).2.1 (by decide +kernel)
    have hremoved : (⟨"b", "1"⟩ : Tag) ∈ (taggedCluster [⟨"a", "2"⟩, ⟨"b", "1"⟩]).tagList := by
      decide
    have hadded : (⟨"c", "1"⟩ : Tag) ∈ (taggedCluster [⟨"a", "2"⟩, ⟨"c", "1"⟩]).tagList := by
      decide
    exact ⟨hsuccess _ (.removedTags hremoved (by decide)),
      hsuccess _ (.addedTags hadded (by decide))⟩
  · refine (update_applies_differences {} {} ({} : Script).remote rfl rfl rfl rfl 1).2.2 ?_
    refine ⟨?_, rfl, rfl, rfl⟩
    simp [taggedCluster, tagList, or_comm]

end Lifecycle.Cluster
