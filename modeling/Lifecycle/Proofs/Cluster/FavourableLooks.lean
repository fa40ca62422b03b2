import Lifecycle.Proofs.Cluster.Differences
import Lifecycle.Proofs.Cluster.PolicyRemoval
import Lifecycle.Proofs.Patience

/-!
# Changes that take several favourable looks

A change of query acceleration, of the version or of the maintenance track is trusted only after
several favourable looks in a row. Each of them but the last one costs a delay of the schedule for
modifications. So where nothing but such a change is asked for and the service plays along, the
update succeeds exactly when this schedule hands out enough delays
(`favourable_looks_suffice_iff`), whether the settings are accepted or not.
-/

namespace Lifecycle.Cluster

open Json ProgressRecord Chain

/-- The service accepts every request, and whoever looks at the cluster finds it available, with
nothing pending and query acceleration not being applied. -/
structure Favourable (remote : Remote) : Prop where
  /-- Requests are accepted. -/
  accepts : ∀ past request, ∃ response, remote past (.invoke request) = .ok response
  /-- Looks are favourable. -/
  shows : ∀ past identifier, ∃ description,
    remote past (.describe identifier) = .ok description ∧ isAvailable description = true ∧
      hasPendingModifications description = false ∧ aquaStatus? description ≠ some "applying"

/-- The only change between two models, but for order and repetition, is one that takes so many
favourable looks. -/
inductive SoleChange (s : Settings) (desired previous : Cluster) : UInt32 → Prop
  /-- Query acceleration has a new setting. -/
  | acceleration (hset : desired.aquaConfigurationStatus.isSome = true)
      (hnew : desired.aquaConfigurationStatus ≠ previous.aquaConfigurationStatus)
      (hrest : Reordered { desired with
        aquaConfigurationStatus := previous.aquaConfigurationStatus } previous) :
      SoleChange s desired previous s.aquaMinObservations
  /-- The version or the maintenance track is another one. -/
  | patch (hnew : desired.clusterVersion ≠ previous.clusterVersion ∨
        desired.maintenanceTrackName ≠ previous.maintenanceTrackName)
      (hrest : Reordered { desired with
        clusterVersion := previous.clusterVersion
        maintenanceTrackName := previous.maintenanceTrackName } previous) :
      SoleChange s desired previous s.patchMinObservations

variable {s : Settings} {scope : ResourceScope} {desired previous : Cluster} {least : UInt32}

/-- The policy is not a matter of order or repetition. -/
theorem Reordered.policyChanged_eq_false (h : Reordered desired previous) :
    policyChanged ⟨desired, some previous⟩ = false := by
  by_contra hchanged
  obtain ⟨_, hdiffers⟩ := exists_differs_of_policyChanged ((Bool.not_eq_false _).mp hchanged)
  exact h.not_differs hdiffers

/-- Reading the cluster back waits for nothing. -/
theorem readBack_prompt : ∀ step ∈ readBack, (∀ target r, step.stabilization target r = .ok none) ∧
    ∀ observed r, (step.onComplete observed r).1 = .advance := by
  simp only [readBack, List.forall_mem_cons]
  exact ⟨⟨fun _ _ => rfl, fun _ _ => rfl⟩, ⟨fun _ _ => rfl, fun _ _ => rfl⟩,
    ⟨fun _ _ => rfl, fun _ _ => rfl⟩, List.forall_mem_nil _⟩

/-- A cluster with an identifier is looked at under it. -/
theorem describeProbe_eq_ok (previous : Option Cluster) {identifier : String}
    (hid : desired.clusterIdentifier = some identifier) :
    describeProbe ⟨desired, previous⟩ = .ok { probe := .describe identifier } := by
  simp only [describeProbe, id, hid]
  rfl

/-- A change that is watched while it is patched changes an attribute. -/
theorem modifiedAttributes_ne_nil
    (h : Attribute.anyChanged Attribute.patching desired (some previous) = true) :
    modifiedAttributes desired previous ≠ [] := by
  obtain ⟨tracked, hpatching, hdiffers⟩ := List.any_eq_true.mp h
  have htracked : tracked ∈ Attribute.plainOnes ++ Attribute.unorderedOnes := by
    simp only [Attribute.patching, List.mem_cons, List.not_mem_nil, or_false] at hpatching
    rcases hpatching with rfl | rfl <;> simp [Attribute.plainOnes]
  intro hnone
  exact List.filter_eq_nil_iff.mp hnone tracked htracked hdiffers

/-- Where the service plays along, the looks at the cluster are favourable to a step that asks for
no more than that. -/
theorem Favourable.favoured {remote : Remote} (hremote : Favourable remote) {faults : FaultTable}
    {config : ChainConfig} {target : Target Cluster} {step : Step Cluster}
    {policy : BackoffPolicy} (identifier : String)
    (hdeclared : ∀ r, step.stabilization target r = .ok (some
      { probe := .describe identifier, minObservations := least, policy := some policy }))
    (hstable : ∀ description, isAvailable description = true →
      hasPendingModifications description = false → aquaStatus? description ≠ some "applying" →
      step.isStable (.present description) target = true)
    (hadvances : ∀ observed r, step.onComplete observed r = (.advance, r))
    (hcapture : ∀ response r, step.capture response r = r) :
    Favoured faults config remote target step least policy where
  looks r := by
    refine ⟨_, hdeclared r, rfl, rfl, fun past => ?_⟩
    obtain ⟨description, hanswer, havailable, hpending, haqua⟩ :=
      hremote.shows past.exchanges identifier
    refine ⟨some description, ?_⟩
    rw [verdict, Probe.call, hanswer, ← hstable description havailable hpending haqua]
    rfl
  advances observed r := by rw [hadvances]
  counters := ⟨fun _ _ => by rw [hcapture], fun _ _ => by rw [hadvances]⟩

section Runs

variable {run : Run Cluster} {identifier operation : String} {step : Step Cluster}
  (hrun : (family s scope).CarriesOut .update ⟨desired, some previous⟩ run)
  (hpolicy : policyChanged ⟨desired, some previous⟩ = false)
  (hsole : ∀ other, Differs desired previous other → other = operation)
  (hstep : step ∈ run.chain.steps) (hown : (step.name, operation) ∈ operations)
include hrun hpolicy hsole hstep hown

/-- Besides the step of the only operation that the models differ in, no other step than those that
read the cluster back are taken up. -/
theorem mem_readBack_of_takesUp {n : Nat} {other : Step Cluster} {rest : List (Step Cluster)}
    {r : ProgressRecord Cluster} {past : Journal} (harrives : run.Arrives n (other :: rest) r past)
    (htakes : takesUp (run.targets n) other r = true) (hne : other ≠ step) : other ∈ readBack := by
  have hother := harrives.mem
  rw [takesUp_iff, hrun.targets] at htakes
  rw [← Option.some.inj hrun.chain] at hother
  rcases differs_of_shouldRun other hother r htakes.2 with
    hback | ⟨_, hchanged⟩ | ⟨found, hfound, hdiffers⟩
  · exact hback
  · cases hpolicy.symm.trans hchanged
  · obtain rfl := hsole found hdiffers
    have hname := (name_eq_iff hfound hown hdiffers.isReading_eq_false).mpr rfl
    exact absurd ((namesApart hrun.chain).eq_of_name_eq harrives.mem hstep hname) hne

variable (hid : desired.clusterIdentifier = some identifier) (hremote : Favourable run.remote)
  (hname : step.name = "modify-cluster" ∨ step.name = "configure-aqua")
include hid hremote hname

/-- Where the models differ in one operation that is watched, the run waits for its step. -/
theorem waitsFor_of_sole (hverdict : run.Verdict step true)
    (hfavoured : ∀ n, Favoured run.faults run.chain.config run.remote (run.targets n) step least
      s.modification) : run.WaitsFor step least s.modification where
  names := namesApart hrun.chain
  marks := keepsMarks_run hrun
  start := hrun.start
  mem := hstep
  applies := hverdict
  favoured := hfavoured
  welcome n r := by
    refine ⟨?_, hremote.accepts⟩
    rw [hrun.targets]
    refine exists_request hid step (mem_steps_of_chain hrun.chain hstep) r fun hpolicy => ?_
    rcases hname with hname | hname <;>
    · rw [hname] at hpolicy
      exact absurd hpolicy (by decide)
  later harrives htakes hne hsplit := by
    have hback := mem_readBack_of_takesUp hrun hpolicy hsole hstep hown harrives htakes hne
    refine mem_front hrun.chain hsplit (mem_steps_of_chain hrun.chain hstep) ?_
    simp only [readBack, List.mem_cons, List.not_mem_nil, or_false] at hback
    rcases hname with hname | hname <;> rcases hback with rfl | rfl | rfl <;>
    · rw [hname]
      exact List.mem_of_elem_eq_true rfl
  prompt harrives htakes hne hvisited := by
    have hback := mem_readBack_of_takesUp hrun hpolicy hsole hstep hown harrives htakes hne
    obtain ⟨hdeclared, hadvances⟩ := readBack_prompt _ hback
    have hrequest := exists_request hid _ (mem_steps_of_chain hrun.chain harrives.mem) _
      (known_of_takesUp hrun harrives htakes)
    rw [← hrun.targets] at hrequest
    exact hvisited.exists_completed_of_welcome ⟨hrequest, hremote.accepts⟩ (hdeclared _) hadvances

end Runs

section SoleChange

variable {run : Run Cluster} {identifier : String}
  (hrun : (family s scope).CarriesOut .update ⟨desired, some previous⟩ run)
  (hid : desired.clusterIdentifier = some identifier) (hremote : Favourable run.remote)
include hrun hid hremote

/-- Where query acceleration is the only change, the run waits for it. -/
theorem waitsFor_acceleration (hset : desired.aquaConfigurationStatus.isSome = true)
    (hnew : desired.aquaConfigurationStatus ≠ previous.aquaConfigurationStatus)
    (hrest : Reordered { desired with
      aquaConfigurationStatus := previous.aquaConfigurationStatus } previous) :
    run.WaitsFor (Step.configureAqua s.aquaMinObservations s.modification) s.aquaMinObservations
      s.modification := by
  have hsole : ∀ other, Differs desired previous other → other = "ModifyAquaConfiguration" := by
    intro other hdiffers
    cases hdiffers with
    | acceleration => rfl
    | attributes h => exact absurd (.attributes h) hrest.not_differs
    | removedTags htag h => exact absurd (.removedTags htag h) hrest.not_differs
    | addedTags htag h => exact absurd (.addedTags htag h) hrest.not_differs
    | loggingOff h h' => exact absurd (.loggingOff h h') hrest.not_differs
    | loggingOn h h' => exact absurd (.loggingOn h h') hrest.not_differs
    | policy h h' => exact absurd (.policy h h') hrest.not_differs
    | noPolicy h h' => exact absurd (.noPolicy h h') hrest.not_differs
  have hstep : Step.configureAqua s.aquaMinObservations s.modification ∈ run.chain.steps := by
    rw [← Option.some.inj hrun.chain]
    simp [updateChain]
  refine waitsFor_of_sole hrun hrest.policyChanged_eq_false hsole hstep
    (List.mem_of_elem_eq_true rfl) hid hremote (.inr rfl) ?_ fun n => ?_
  · exact Run.verdict_of_shouldRun (fun _ _ _ => rfl) hrun.targets
      (shouldRun_configureAqua.mpr ⟨hset, hnew⟩)
  · rw [hrun.targets]
    have hprobe := describeProbe_eq_ok (some previous) hid
    refine hremote.favoured identifier ?_ ?_ (fun _ _ => rfl) fun _ _ => rfl
    · intro r
      simp only [Step.configureAqua, hprobe]
      rfl
    · intro description havailable _ haqua
      simp [Step.configureAqua, havailable, haqua]

/-- Where the version or the maintenance track is the only change, the run waits for that. -/
theorem waitsFor_patch
    (hnew : desired.clusterVersion ≠ previous.clusterVersion ∨
      desired.maintenanceTrackName ≠ previous.maintenanceTrackName)
    (hrest : Reordered { desired with
      clusterVersion := previous.clusterVersion
      maintenanceTrackName := previous.maintenanceTrackName } previous) :
    run.WaitsFor (Step.modifyCluster s.patchMinObservations s.modification)
      s.patchMinObservations s.modification := by
  have hsole : ∀ other, Differs desired previous other → other = "ModifyCluster" := by
    intro other hdiffers
    cases hdiffers with
    | attributes => rfl
    | acceleration h h' => exact absurd (.acceleration h h') hrest.not_differs
    | removedTags htag h => exact absurd (.removedTags htag h) hrest.not_differs
    | addedTags htag h => exact absurd (.addedTags htag h) hrest.not_differs
    | loggingOff h h' => exact absurd (.loggingOff h h') hrest.not_differs
    | loggingOn h h' => exact absurd (.loggingOn h h') hrest.not_differs
    | policy h h' => exact absurd (.policy h h') hrest.not_differs
    | noPolicy h h' => exact absurd (.noPolicy h h') hrest.not_differs
  have hpatch : Attribute.anyChanged Attribute.patching desired (some previous) = true := by
    simpa [Attribute.anyChanged, Attribute.patching, Attribute.plain] using hnew
  have hstep : Step.modifyCluster s.patchMinObservations s.modification ∈ run.chain.steps := by
    rw [← Option.some.inj hrun.chain]
    simp [updateChain]
  refine waitsFor_of_sole hrun hrest.policyChanged_eq_false hsole hstep
    (List.mem_of_elem_eq_true rfl) hid hremote (.inl rfl) ?_ fun n => ?_
  · exact Run.verdict_of_shouldRun (fun _ _ _ => rfl) hrun.targets
      (shouldRun_modifyCluster.mpr (modifiedAttributes_ne_nil hpatch))
  · rw [hrun.targets]
    have hprobe := describeProbe_eq_ok (some previous) hid
    refine hremote.favoured identifier ?_ ?_ (fun _ _ => rfl) fun _ _ => rfl
    · intro r
      simp only [Step.modifyCluster, hprobe, hpatch, if_true]
      rfl
    · intro description havailable hpending _
      simp [Step.modifyCluster, havailable, hpending]

/-- Where there is only such a change, the run waits for one step. -/
theorem SoleChange.exists_waitsFor (h : SoleChange s desired previous least) :
    ∃ step, run.WaitsFor step least s.modification := by
  cases h with
  | acceleration hset hnew hrest => exact ⟨_, waitsFor_acceleration hrun hid hremote hset hnew hrest⟩
  | patch hnew hrest => exact ⟨_, waitsFor_patch hrun hid hremote hnew hrest⟩

end SoleChange

/-- An update of a cluster with an identifier is carried out. -/
theorem chainFor_eq_updateChain (s : Settings) (scope : ResourceScope)
    {request : HandlerRequest Cluster} (hupdate : request.operation = .update)
    (hdesired : request.desired = some desired) (hid : desired.clusterIdentifier.isSome = true) :
    (family s scope).chainFor request = .ok (updateChain s scope, desired) := by
  rcases chainFor_update s scope hupdate hdesired with ⟨refused, hchain⟩ | hchain
  · have hrefusal : refusal .update desired = none := by
      simp [refusal, Option.isSome_iff_ne_none.mp hid]
    rw [Family.chainFor, hdesired, hupdate] at hchain
    simp only [family, hrefusal] at hchain
    cases hchain
  · exact hchain

/-- An update that asks for nothing but a change that takes several favourable looks, against a
service that plays along, succeeds if the schedule for modifications hands out a delay for each of
these looks but the last one. Otherwise it fails because the cluster did not stabilize, although
each look was favourable. -/
theorem favourable_looks_suffice_iff (s : Settings) (scope : ResourceScope) {remote : Remote}
    {request : HandlerRequest Cluster} {desired previous : Cluster} {least : UInt32}
    (hupdate : request.operation = .update) (hdesired : request.desired = some desired)
    (hprevious : request.previous = some previous) (hprogress : request.progress = none)
    (hid : desired.clusterIdentifier.isSome = true) (hchange : SoleChange s desired previous least)
    (hremote : Favourable remote) {limit : Nat} (hlimit : max least.toNat 1 ≤ limit) :
    ∃ suspended last,
      (family s scope).invocations remote request limit none [] = suspended ++ [last] ∧
      (∀ invocation ∈ suspended, ∃ response, invocation.response = .ok response ∧
        response.status = .inProgress) ∧
      suspended.length < max least.toNat 1 ∧
      if s.modification.Lasts (least.toNat - 1) then last.isSuccess = true
      else ∃ response, last.response = .ok response ∧
        response.errorCode = some .notStabilized := by
  have hchain := chainFor_eq_updateChain s scope hupdate hdesired hid
  have hrun : (family s scope).CarriesOut request.operation ⟨desired, request.previous⟩
      ((family s scope).runOf remote request (updateChain s scope) desired) :=
    Family.carriesOut_runOf hprogress hchain
  have hfollows : (family s scope).Follows remote request limit
      ((family s scope).runOf remote request (updateChain s scope) desired) :=
    Family.follows_runOf (by simp [hupdate]) hchain limit
  rw [hupdate, hprevious] at hrun
  obtain ⟨identifier, hid⟩ := Option.isSome_iff_exists.mp hid
  obtain ⟨step, hwaits⟩ := hchange.exists_waitsFor hrun hid hremote
  obtain ⟨suspended, last, hpasses, hsuspended, hlength, hlast⟩ := hwaits.exists_last hlimit
  rw [Family.Follows, hprogress, hpasses, List.map_append, List.map_singleton] at hfollows
  refine ⟨_, _, hfollows, ?_, by rwa [List.length_map], ?_⟩
  · intro invocation hinvocation
    obtain ⟨report, hreport, rfl⟩ := List.mem_map.mp hinvocation
    obtain ⟨delay, r, hresult⟩ := hsuspended report hreport
    exact ⟨.ofOutcome (.inProgress delay r), by rw [hresult]; rfl, rfl⟩
  · split_ifs at hlast ⊢ with hlasts
    · obtain ⟨model, hresult⟩ := hlast
      rw [hresult]
      rfl
    · exact ⟨.ofOutcome (notStabilized step.name s.modification), by rw [hlast]; rfl, rfl⟩

/-- A cluster whose query acceleration is to be on. -/
def accelerated : Cluster where
  clusterIdentifier := some "analytics"
  aquaConfigurationStatus := some "enabled"

/-- A request to set query acceleration, and nothing else. -/
def accelerate : HandlerRequest Cluster where
  operation := .update
  desired := some accelerated
  previous := some (.named "analytics")

/-- A service that carries out every request and has the cluster available is favourable. -/
theorem favourable_compliant : Favourable compliant where
  accepts _ _ := ⟨_, rfl⟩
  shows _ _ := ⟨_, rfl, by decide, by decide, by decide⟩

/-- Under the default count, query acceleration is the only change. -/
theorem soleChange_accelerated (modification : BackoffPolicy) :
    SoleChange { modification } accelerated (.named "analytics") 3 :=
  .acceleration (s := { modification }) rfl (by decide) ⟨fun _ => Iff.rfl, rfl, rfl, rfl⟩

/-- With a schedule that hands out two delays, the third favourable look ends the update with
success. -/
theorem accelerate_succeeds :
    ∃ suspended last,
      (family { modification := .constant 30 60 } {}).invocations compliant accelerate 3 none [] =
        suspended ++ [last] ∧ suspended.length < 3 ∧ last.isSuccess = true := by
  obtain ⟨suspended, last, hinvocations, _, hlength, hlast⟩ :=
    favourable_looks_suffice_iff { modification := .constant 30 60 } {}
      (show accelerate.operation = .update from rfl) rfl rfl rfl rfl (soleChange_accelerated _)
      favourable_compliant (show max (3 : UInt32).toNat 1 ≤ 3 by decide)
  -- One of the two delays leaves half of the time.
  have hlasts : (BackoffPolicy.constant 30 60).Lasts ((3 : UInt32).toNat - 1) :=
    BackoffPolicy.lasts_succ_iff.mpr (by decide)
  rw [if_pos hlasts] at hlast
  exact ⟨suspended, last, hinvocations, hlength, hlast⟩

/-- Settings are accepted under which query acceleration can never be set: with a schedule that
hands out one delay, the update is given up after two favourable looks. -/
theorem accelerate_given_up :
    Settings.objection? { modification := .constant 30 30 } = none ∧
      SoleChange { modification := .constant 30 30 } accelerated (.named "analytics") 3 ∧
      Favourable compliant ∧
      ((family { modification := .constant 30 30 } {}).invocations compliant accelerate 3 none
        []).map (fun invocation => invocation.response.toOption.map fun response =>
          (response.status, response.errorCode)) =
        [some (.inProgress, none), some (.failed, some .notStabilized)] := by
  refine ⟨by decide, soleChange_accelerated _, favourable_compliant, ?_⟩
  decide +kernel

end Lifecycle.Cluster
