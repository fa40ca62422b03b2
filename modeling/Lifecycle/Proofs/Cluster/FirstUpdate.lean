import Lifecycle.Proofs.Cluster.NewCluster

/-!
# What an update without a previous model applies

An update that is not told the previous model has nothing to compare with. It sets the
attributes, logging and the policy as if all of them were new. Tags and query acceleration
it leaves to the creation of the cluster, as if there had been one: it applies them only
to a cluster that comes from a snapshot (`first_update_applies_iff`).
-/

namespace Lifecycle.Cluster

open Json ProgressRecord Chain

/-- The operations that bring about what a desired model asks for beyond plain attributes. -/
inductive Asks (desired : Cluster) : String → Prop
  /-- The cluster is to have tags. -/
  | tags (htags : desired.tagList ≠ []) : Asks desired "CreateTags"
  /-- Logging is to be on. -/
  | logging (hlogging : desired.loggingProperties.isSome = true) : Asks desired "EnableLogging"
  /-- Query acceleration is to have a setting. -/
  | acceleration (haqua : desired.aquaConfigurationStatus.isSome = true) :
      Asks desired "ModifyAquaConfiguration"
  /-- The cluster is to have a policy. -/
  | policy (hpolicy : desired.namespaceResourcePolicy.isSome = true) :
      Asks desired "PutResourcePolicy"

/-- The operations that a new cluster does not need, because its creation carries what they set. -/
def withCreation : List String := ["CreateTags", "ModifyAquaConfiguration"]

/-- What is left to the creation of a cluster is neither logging nor the policy. -/
theorem notMem_withCreation :
    "EnableLogging" ∉ withCreation ∧ "PutResourcePolicy" ∉ withCreation := by
  decide

/-- The operations that an update without a previous model carries out. -/
inductive Applies (desired : Cluster) : String → Prop
  /-- The attributes are set in any case. -/
  | attributes : Applies desired "ModifyCluster"
  /-- What the model asks for is applied, unless it is left to the creation of the cluster. -/
  | asked {operation : String} (hasks : Asks desired operation)
      (hrestore : operation ∈ withCreation → desired.isRestore = true) : Applies desired operation
  /-- The policy that was attached is removed again. -/
  | noPolicy (hpolicy : desired.namespaceResourcePolicy.isSome = true) :
      Applies desired "DeleteResourcePolicy"

variable {s : Settings} {scope : ResourceScope} {desired : Cluster} {operation : String}

/-- Nothing that a model asks for is the removal of the policy. -/
theorem Asks.ne_removal (h : Asks desired operation) : operation ≠ "DeleteResourcePolicy" := by
  cases h <;> decide

/-- Nothing that a model asks for is a matter of reading. -/
theorem Asks.isReading_eq_false (h : Asks desired operation) :
    ∀ request, request.operation = operation → isReading (.invoke request) = false := by
  rintro ⟨_, _⟩ rfl
  cases h <;> rfl

/-- What an update applies is not a matter of reading. -/
theorem Applies.isReading_eq_false (h : Applies desired operation) :
    ∀ request, request.operation = operation → isReading (.invoke request) = false := by
  rintro ⟨_, _⟩ rfl
  cases h with
  | attributes => rfl
  | asked hasks => exact hasks.isReading_eq_false _ rfl
  | noPolicy => rfl

/-- What is left to the creation of a cluster is applied to one from a snapshot alone. -/
theorem Applies.isRestore (h : Applies desired operation) (hmem : operation ∈ withCreation) :
    desired.isRestore = true := by
  cases h with
  | attributes => exact absurd hmem (by decide)
  | asked _ hrestore => exact hrestore hmem
  | noPolicy => exact absurd hmem (by decide)

/-- The request of a step of an update that applies reads, or is for an operation that the update
carries out. -/
theorem applies_of_request : ∀ step ∈ (updateChain s scope).steps, ∀ r request,
    step.shouldRun ⟨desired, none⟩ r = true → step.request ⟨desired, none⟩ r = .ok request →
    isReading (.invoke request) = true ∨ Applies desired request.operation := by
  simp only [updateChain, readBack, List.cons_append, List.nil_append, List.forall_mem_cons]
  refine ⟨?modify, ?deleteTags, ?createTags, ?disableLogging, ?enableLogging, ?configureAqua,
    ?resolveNamespace, ?putPolicy, ?deletePolicy, ?describe, ?describeLogging, ?getPolicy,
    List.forall_mem_nil _⟩
  all_goals
    intro r request happlies hrequest
    obtain ⟨_, _, rfl⟩ := exists_eq_of_bind hrequest
  case resolveNamespace | describe | describeLogging | getPolicy => exact .inl rfl
  all_goals right
  case modify => exact .attributes
  case deleteTags => cases happlies
  case createTags =>
    obtain ⟨hrestore, htags⟩ := shouldRun_createTags_none.mp happlies
    exact .asked (.tags htags) fun _ => hrestore
  case disableLogging => simp [Step.disableLogging] at happlies
  case enableLogging =>
    exact .asked (.logging (shouldRun_enableLogging_none.mp happlies))
      fun hmem => absurd hmem notMem_withCreation.1
  case configureAqua =>
    obtain ⟨haqua, hrestore⟩ := shouldRun_configureAqua_none.mp happlies
    exact .asked (.acceleration haqua) fun _ => hrestore
  case putPolicy =>
    exact .asked (.policy (shouldRun_putPolicy_none.mp happlies))
      fun hmem => absurd hmem notMem_withCreation.2
  case deletePolicy => exact .noPolicy (shouldRun_deletePolicy.mp happlies).1

section Runs

variable {run : Run Cluster} {limit : Nat}
  (hrun : (family s scope).CarriesOut .update ⟨desired, none⟩ run)
include hrun

/-- For each operation that an update carries out, the chain has a step that always applies. -/
theorem exists_step_of_applies (h : Applies desired operation) :
    ∃ step ∈ run.chain.steps, (step.name, operation) ∈ operations ∧ run.Verdict step true := by
  have hchain : updateChain s scope = run.chain := Option.some.inj hrun.chain
  have hfixed : ∀ {step : Step Cluster}, step.FixedGate →
      step.shouldRun ⟨desired, none⟩ .empty = true → run.Verdict step true :=
    fun hfixed => Run.verdict_of_shouldRun hfixed hrun.targets
  rw [← hchain]
  cases h with
  | attributes =>
    exact ⟨Step.modifyCluster s.patchMinObservations s.modification, by simp [updateChain],
      List.mem_of_elem_eq_true rfl, hfixed (fun _ _ _ => rfl) rfl⟩
  | asked hasks hrestore =>
    cases hasks with
    | tags htags =>
      exact ⟨Step.createTags scope, by simp [updateChain], List.mem_of_elem_eq_true rfl,
        hfixed (fun _ _ _ => rfl) (shouldRun_createTags_none.mpr ⟨hrestore (by decide), htags⟩)⟩
    | logging hlogging =>
      exact ⟨Step.enableLogging, by simp [updateChain], List.mem_of_elem_eq_true rfl,
        hfixed (fun _ _ _ => rfl) (shouldRun_enableLogging_none.mpr hlogging)⟩
    | acceleration haqua =>
      exact ⟨Step.configureAqua s.aquaMinObservations s.modification, by simp [updateChain],
        List.mem_of_elem_eq_true rfl, hfixed (fun _ _ _ => rfl)
          (shouldRun_configureAqua_none.mpr ⟨haqua, hrestore (by decide)⟩)⟩
    | policy hpolicy =>
      exact ⟨Step.putResourcePolicy, by simp [updateChain], List.mem_of_elem_eq_true rfl,
        hfixed (fun _ _ _ => rfl) (shouldRun_putPolicy_none.mpr hpolicy)⟩
  | noPolicy hpolicy =>
    have hremoves : removesPolicy ⟨desired, none⟩ = true := hpolicy
    refine ⟨Step.deleteResourcePolicy, by simp [updateChain], List.mem_of_elem_eq_true rfl, ?_⟩
    intro n rest r past harrives _
    obtain ⟨front, hfront⟩ := harrives.exists_front
    have hresolve := resolve_mem_front hrun.chain hfront (.inr ⟨rfl, by decide⟩)
    rw [hrun.targets]
    exact shouldRun_deletePolicy.mpr ⟨hremoves,
      known_of_mem_front hrun (needsNamespace_of_removes hremoves) harrives hfront hresolve⟩

end Runs

/-- An update without a previous model makes no other call that changes something than for the
operations that it applies. When it succeeds, each of these has been carried out once. Of the
operations that the model asks for these are all, except that tags and query acceleration are
applied to a cluster from a snapshot alone. -/
theorem first_update_applies_iff (s : Settings) (scope : ResourceScope) (remote : Remote)
    {request : HandlerRequest Cluster} {desired : Cluster} (hupdate : request.operation = .update)
    (hdesired : request.desired = some desired) (hprevious : request.previous = none)
    (hprogress : request.progress = none) (limit : Nat) :
    (∀ call ∈ ((family s scope).journal remote request limit).calls, isReading call = true ∨
      ∃ sent, call = .invoke sent ∧ Applies desired sent.operation) ∧
    ((family s scope).Succeeds remote request limit →
      (∀ operation, Applies desired operation →
        ((family s scope).journal remote request limit).exchanges.countP
          (fulfills operation) = 1) ∧
      ∀ operation, Asks desired operation →
        ((∃ exchange ∈ ((family s scope).journal remote request limit).exchanges,
            accepts operation exchange = true) ↔
          (operation ∈ withCreation → desired.isRestore = true))) := by
  rcases Family.journal_eq_nil_or_exists_run (f := family s scope) (by simp [hupdate]) hdesired
    hprogress remote limit with ⟨hnone, hfails⟩ | ⟨run, hrun, hjournal, hends⟩
  · rw [hnone]
    exact ⟨nofun, fun hsucceeds => absurd hsucceeds hfails⟩
  · rw [hupdate, hprevious] at hrun
    rw [hjournal]
    have hcalls : ∀ call ∈ (run.journal limit).calls, isReading call = true ∨
        ∃ sent, call = .invoke sent ∧ Applies desired sent.operation := by
      intro call
      refine isReading_or_wanted hrun ?_
      rw [← Option.some.inj hrun.chain]
      exact applies_of_request
    refine ⟨hcalls, fun hsucceeds => ?_⟩
    have hcount : ∀ operation, Applies desired operation →
        (run.journal limit).exchanges.countP (fulfills operation) = 1 := by
      intro operation happlies
      obtain ⟨n, model, hends⟩ := hends hsucceeds
      obtain ⟨step, hstep, hown, hverdict⟩ := exists_step_of_applies hrun happlies
      exact countP_fulfills hrun hown happlies.isReading_eq_false hstep rfl hverdict hends
    refine ⟨hcount, fun operation hasks => ⟨?_, ?_⟩⟩
    · rintro ⟨exchange, hexchange, haccepts⟩
      have hfor := (Bool.and_eq_true_iff.mp haccepts).1
      rcases hcalls _ (List.mem_map_of_mem hexchange) with hreading | ⟨sent, hsent, happlies⟩
      · cases hfor.symm.trans (isFor_eq_false hasks.isReading_eq_false hreading)
      · rw [hsent] at hfor
        rw [← eq_of_beq hfor]
        exact happlies.isRestore
    · intro hrestore
      have hone := hcount operation (.asked hasks hrestore)
      rw [fulfills_eq_accepts hasks.ne_removal] at hone
      exact List.countP_pos_iff.mp (by omega)

/-- A cluster that is to have tags and query acceleration. -/
def acceleratedCluster (snapshot : Option String) : Cluster where
  clusterIdentifier := some "analytics"
  snapshotIdentifier := snapshot
  tags := some [⟨"team", "data"⟩]
  aquaConfigurationStatus := some "enabled"

/-- An update to it that is not told the previous model. -/
def acceleration (snapshot : Option String) : HandlerRequest Cluster where
  operation := .update
  desired := some (acceleratedCluster snapshot)

/-- A service that carries out every request and has the cluster available. -/
def obliging : Remote :=
  ({ describe := [.ok (.object [("ClusterStatus", .string "available")])] } : Script).remote

/-- Settings under which one look is enough. -/
def promptSettings : Settings where
  aquaMinObservations := 1
  patchMinObservations := 1

/-- The journal of such an update. -/
def accelerationJournal (snapshot : Option String) : Journal :=
  (family promptSettings {}).journal obliging (acceleration snapshot) 1

/-- What is left to the creation is asked for. -/
theorem asks_acceleratedCluster (snapshot : Option String) :
    ∀ operation ∈ withCreation, Asks (acceleratedCluster snapshot) operation := by
  simp only [withCreation, List.forall_mem_cons]
  exact ⟨.tags (List.cons_ne_nil _ _), .acceleration rfl, List.forall_mem_nil _⟩

/-- A cluster from a snapshot gets its tags and its query acceleration, each once. -/
theorem acceleration_of_snapshot :
    withCreation.map (fun operation =>
      (accelerationJournal "nightly").exchanges.countP (fulfills operation)) = [1, 1] := by
  have hsuccess := (first_update_applies_iff promptSettings {} obliging
    (show (acceleration "nightly").operation = .update from rfl) rfl rfl rfl 1).2 (by decide +kernel)
  have hone : ∀ operation ∈ withCreation,
      (accelerationJournal "nightly").exchanges.countP (fulfills operation) = 1 :=
    fun operation hmem =>
      hsuccess.1 operation (.asked (asks_acceleratedCluster "nightly" operation hmem) fun _ => rfl)
  rw [List.map_congr_left hone]
  rfl

/-- Any other cluster gets neither, although the update succeeds. -/
theorem acceleration_left_out :
    (family promptSettings {}).Succeeds obliging (acceleration none) 1 ∧
      ∀ operation ∈ withCreation, Asks (acceleratedCluster none) operation ∧
        ∀ exchange ∈ (accelerationJournal none).exchanges, accepts operation exchange = false :=
  ⟨by decide +kernel, fun operation hmem =>
    ⟨asks_acceleratedCluster none operation hmem, by revert operation; decide +kernel⟩⟩

end Lifecycle.Cluster
