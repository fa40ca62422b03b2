import Lifecycle.Proofs.Cluster.Fulfillment

/-!
# What a new cluster is given

A new cluster gets with its creation what the request for that takes, and the rest by
requests of their own. A creation makes no other call that changes something than these,
each as the desired model says, and when it succeeds each has been accepted once
(`create_applies_requested`). None is sent before the cluster is made.
-/

namespace Lifecycle.Cluster

open Json ProgressRecord Chain

/-- The request that makes the cluster. -/
def creation (desired : Cluster) : RemoteRequest :=
  if desired.isRestore then restoreRequest desired else createRequest desired

/-- The step that makes the cluster. -/
def creationStep (s : Settings) (desired : Cluster) : Step Cluster :=
  if desired.isRestore then Step.restoreFromSnapshot s.coolDown else Step.createCluster s.coolDown

/-- A request adds tags to a resource: it names the resource and lists the tags in their order. -/
structure AddsTags (arn : String) (tags : List Tag) (request : RemoteRequest) : Prop where
  /-- What is asked for. -/
  operation : request.operation = "CreateTags"
  /-- The members of the request. -/
  payload : request.payload = .object [("ResourceName", .string arn),
    ("Tags", .array (tags.map fun tag =>
      .object [("Key", .string tag.key), ("Value", .string tag.value)]))]

/-- The requests that a new cluster takes. -/
inductive Requested (scope : ResourceScope) (desired : Cluster) : RemoteRequest → Prop
  /-- The cluster is to be made. -/
  | creation : Requested scope desired (creation desired)
  /-- A snapshot is restored without tags, and tags are wanted. -/
  | tags {identifier : String} {request : RemoteRequest}
      (hid : desired.clusterIdentifier = some identifier) (hrestore : desired.isRestore = true)
      (htags : desired.tagList ≠ [])
      (hadds : AddsTags (scope.clusterArn identifier) desired.tagList request) :
      Requested scope desired request
  /-- Logging is wanted. -/
  | logging {identifier : String} {logging : LoggingProperties}
      (hid : desired.clusterIdentifier = some identifier)
      (hlogging : desired.loggingProperties = some logging) :
      Requested scope desired (enableLoggingRequest identifier logging)
  /-- A snapshot is restored without query acceleration, and a setting of it is wanted. -/
  | acceleration {identifier status : String} (hid : desired.clusterIdentifier = some identifier)
      (hrestore : desired.isRestore = true)
      (hstatus : desired.aquaConfigurationStatus = some status) :
      Requested scope desired (aquaRequest identifier status)
  /-- A policy is wanted. -/
  | policy {arn : String} {policy : Value}
      (hpolicy : desired.namespaceResourcePolicy = some policy) :
      Requested scope desired (putPolicyRequest arn policy)

/-- What a journal shows once the cluster is made. -/
structure Made (s : Settings) (desired : Cluster) (j : Journal) : Prop where
  /-- The request is accepted, and a look after that finds the cluster available. -/
  available : ∃ front back identifier state, j = front ++ back ∧
    (∃ exchange ∈ front.exchanges, accepts (creation desired).operation exchange = true) ∧
    desired.clusterIdentifier = some identifier ∧
    ⟨.describe identifier, .ok state⟩ ∈ back.exchanges ∧ isAvailable state = true
  /-- The cool-down is served, unless there is none. -/
  cooled : s.coolDown ≠ 0 → ∃ step, .suspended step .coolDown s.coolDown ∈ j

variable {s : Settings} {scope : ResourceScope} {desired : Cluster} {request : RemoteRequest}
  {r : ProgressRecord Cluster}

/-- What is made stays made. -/
theorem Made.append {j : Journal} (h : Made s desired j) (gained : Journal) :
    Made s desired (j ++ gained) := by
  obtain ⟨⟨front, back, identifier, state, rfl, haccepted, hid, hlook, havailable⟩, hcooled⟩ := h
  refine ⟨⟨front, back ++ gained, identifier, state, List.append_assoc .., haccepted, hid, ?_,
    havailable⟩, ?_⟩
  · obtain ⟨purpose, hentry⟩ := Journal.mem_exchanges.mp hlook
    exact Journal.mem_exchanges.mpr ⟨purpose, List.mem_append_left gained hentry⟩
  · intro hcoolDown
    obtain ⟨step, hbegun⟩ := hcooled hcoolDown
    exact ⟨step, List.mem_append_left gained hbegun⟩

/-- The operations of the requests that a new cluster takes. -/
theorem Requested.operation_mem (h : Requested scope desired request) :
    request.operation ∈ ["RestoreFromClusterSnapshot", "CreateCluster", "CreateTags",
      "EnableLogging", "ModifyAquaConfiguration", "PutResourcePolicy"] := by
  cases h with
  | creation =>
    rw [Cluster.creation]
    split <;> exact List.mem_of_elem_eq_true rfl
  | tags _ _ _ hadds =>
    rw [hadds.operation]
    exact List.mem_of_elem_eq_true rfl
  | _ => exact List.mem_of_elem_eq_true rfl

/-- The request of the step that adds tags adds these. -/
theorem addsTags_createTagsRequest (arn : String) (tags : List Tag) :
    AddsTags arn tags (createTagsRequest arn tags) := by
  have hpair : ∀ {a b : String} {x y : Value}, a < b →
      Value.ofMembers [(a, x), (b, y)] = .object [(a, x), (b, y)] :=
    fun hlt => congrArg Value.object (Entries.collect_of_ascending (List.pairwise_pair.mpr hlt))
  have htag : Tag.toValue = fun tag =>
      Value.object [("Key", .string tag.key), ("Value", .string tag.value)] :=
    funext fun _ => hpair (by decide)
  refine ⟨rfl, ?_⟩
  rw [createTagsRequest, htag]
  exact hpair (by decide)

/-- No request that a new cluster takes is a matter of reading. -/
theorem Requested.isReading_eq_false (h : Requested scope desired request) :
    ∀ other, other.operation = request.operation → isReading (.invoke other) = false := by
  intro other hother
  have hoperation := h.operation_mem
  rw [← hother] at hoperation
  simp only [List.mem_cons, List.not_mem_nil, or_false] at hoperation
  rcases hoperation with h | h | h | h | h | h <;> simp [isReading, h]

/-- No request that a new cluster takes removes the policy. -/
theorem Requested.ne_removal (h : Requested scope desired request) :
    request.operation ≠ "DeleteResourcePolicy" := by
  intro hremoval
  exact absurd (hremoval ▸ h.operation_mem) (by decide)

/-- The identifier of a cluster is that in its model. -/
theorem clusterIdentifier_of_id {c : Cluster} {identifier : String} (h : c.id = .ok identifier) :
    c.clusterIdentifier = some identifier := by
  rw [id] at h
  split at h
  · next hid => rw [hid, Except.ok.inj h]
  · cases h

section CreationStep

theorem creationStep_mem (s : Settings) (scope : ResourceScope) (desired : Cluster) :
    creationStep s desired ∈ (createChain s scope).steps := by
  rw [creationStep]
  split <;> simp [createChain]

theorem mem_operations_creation (s : Settings) (desired : Cluster) :
    ((creationStep s desired).name, (creation desired).operation) ∈ operations := by
  rw [creationStep, creation]
  split <;> exact List.mem_of_elem_eq_true rfl

theorem shouldRun_creationStep {previous : Option Cluster} :
    (creationStep s desired).shouldRun ⟨desired, previous⟩ r = true := by
  rw [creationStep]
  split
  · next hrestore => exact hrestore
  · next hafresh => simpa [Step.createCluster] using hafresh

theorem fixedGate_creationStep : (creationStep s desired).FixedGate := by
  rw [creationStep]
  split <;> exact fun _ _ _ => rfl

theorem request_creationStep {previous : Option Cluster} :
    (creationStep s desired).request ⟨desired, previous⟩ r = .ok (creation desired) := by
  rw [creationStep, creation]
  split <;> rfl

theorem stabilization_creationStep (target : Target Cluster) :
    (creationStep s desired).stabilization target r = some <$> describeProbe target := by
  rw [creationStep]
  split <;> rfl

theorem isStable_creationStep (observation : Observation) (target : Target Cluster) :
    (creationStep s desired).isStable observation target = observedAvailable observation := by
  rw [creationStep]
  split <;> rfl

theorem suppress_creationStep (fault : ClassifiedFault) (target : Target Cluster) :
    (creationStep s desired).suppress fault target = false := by
  rw [creationStep]
  split <;> rfl

theorem onComplete_creationStep (hcoolDown : s.coolDown ≠ 0) (observed : Option Value)
    (r : ProgressRecord Cluster) :
    ((creationStep s desired).onComplete observed r).1 = .coolDown s.coolDown := by
  have hcreated : (created s.coolDown observed r).1 = .coolDown s.coolDown := if_neg hcoolDown
  rw [creationStep]
  split <;> exact hcreated

/-- The step looks at the cluster itself. -/
theorem probe_of_stabilization {target : Target Cluster} {l : Option Stabilization}
    (h : (creationStep s desired).stabilization target r = .ok l) :
    ∃ identifier, target.desired.clusterIdentifier = some identifier ∧
      l.map (·.probe.call) = some (.describe identifier) := by
  rw [stabilization_creationStep] at h
  cases hprobe : describeProbe target with
  | error => cases hprobe ▸ h
  | ok look =>
    rw [hprobe] at h
    obtain rfl := Except.ok.inj h
    obtain ⟨identifier, hid, rfl⟩ := exists_eq_of_bind hprobe
    exact ⟨identifier, clusterIdentifier_of_id hid, rfl⟩

/-- The effect of the request shows in a look that finds the cluster available. -/
theorem available_of_stabilized {config : ChainConfig} {remote : Remote} {target : Target Cluster}
    {r' : ProgressRecord Cluster} {observed : Option Value} {past gained : Journal}
    (h : Stabilized faults config remote target (creationStep s desired) r past
      (.ok (.ok (observed, r'))) gained) :
    ∃ l identifier state, gained = [looked (creationStep s desired) l (.ok state)] ∧
      target.desired.clusterIdentifier = some identifier ∧ l.probe.call = .describe identifier ∧
      isAvailable state = true := by
  cases h with
  | undeclared hdeclared =>
    obtain ⟨_, _, hnone⟩ := probe_of_stabilization hdeclared
    cases hnone
  | @stable l _ hdeclared hverdict =>
    obtain ⟨identifier, hid, hcall⟩ := probe_of_stabilization hdeclared
    rcases favourable_of_verdict hverdict with ⟨state, hanswer, _, hstable⟩ | ⟨_, _, habsent⟩
    · rw [isStable_creationStep] at hstable
      exact ⟨l, identifier, state, by rw [hanswer], hid, Option.some.inj hcall, hstable⟩
    · cases habsent.symm.trans (isStable_creationStep _ _)

/-- A step of a creation that applies is the one that makes the cluster, or comes after it. -/
theorem eq_creationStep_or_mem_front {step : Step Cluster} {front rest : List (Step Cluster)}
    (hsplit : (createChain s scope).steps = front ++ step :: rest)
    (happlies : step.shouldRun ⟨desired, none⟩ r = true) :
    step = creationStep s desired ∨ creationStep s desired ∈ front := by
  rcases front with _ | ⟨first, _ | ⟨second, front⟩⟩
  · obtain ⟨rfl, _⟩ := List.cons.inj hsplit
    have hafresh : desired.isRestore = false := by simpa [Step.createCluster] using happlies
    exact .inl (by simp [creationStep, hafresh])
  · obtain ⟨rfl, hsecond⟩ := List.cons.inj hsplit
    obtain ⟨rfl, _⟩ := List.cons.inj hsecond
    have hrestore : desired.isRestore = true := happlies
    exact .inl (by simp [creationStep, hrestore])
  · obtain ⟨rfl, hsecond⟩ := List.cons.inj hsplit
    obtain ⟨rfl, _⟩ := List.cons.inj hsecond
    right
    rw [creationStep]
    split <;> simp

end CreationStep

section Gates

/-- A new cluster has no tags yet. -/
theorem tagsToAdd_none : tagsToAdd ⟨desired, none⟩ = desired.tagList := by
  simp [tagsToAdd, Diff.missing]

theorem shouldRun_createTags_none :
    (Step.createTags scope).shouldRun ⟨desired, none⟩ r = true ↔
      desired.isRestore = true ∧ desired.tagList ≠ [] := by
  simp [Step.createTags, tagsToAdd_none, Target.isCreate]

theorem shouldRun_enableLogging_none :
    Step.enableLogging.shouldRun ⟨desired, none⟩ r = true ↔
      desired.loggingProperties.isSome = true := by
  simp [Step.enableLogging, Diff.valueChanged]

theorem shouldRun_configureAqua_none {least : UInt32} {polling : BackoffPolicy} :
    (Step.configureAqua least polling).shouldRun ⟨desired, none⟩ r = true ↔
      desired.aquaConfigurationStatus.isSome = true ∧ desired.isRestore = true := by
  simp [Step.configureAqua]

end Gates

/-- The request of a step of a creation that applies reads, or is one that the new cluster takes. -/
theorem requested_of_request : ∀ step ∈ (createChain s scope).steps, ∀ r request,
    step.shouldRun ⟨desired, none⟩ r = true → step.request ⟨desired, none⟩ r = .ok request →
    isReading (.invoke request) = true ∨ Requested scope desired request := by
  have hcreation : ∀ {request}, creation desired = request → Requested scope desired request :=
    fun heq => heq ▸ .creation
  simp only [createChain, readBack, List.cons_append, List.nil_append, List.forall_mem_cons]
  refine ⟨?create, ?restore, ?createTags, ?enableLogging, ?configureAqua, ?resolveNamespace,
    ?putPolicy, ?describe, ?describeLogging, ?getPolicy, List.forall_mem_nil _⟩
  case create | restore =>
    intro r request happlies hrequest
    obtain rfl := Except.ok.inj hrequest
    right
    refine hcreation ?_
    simp_all [creation, Step.createCluster, Step.restoreFromSnapshot]
  all_goals
    intro r request happlies hrequest
    obtain ⟨value, hvalue, rfl⟩ := exists_eq_of_bind hrequest
  case resolveNamespace | describe | describeLogging | getPolicy => exact .inl rfl
  all_goals right
  case createTags =>
    obtain ⟨hrestore, htags⟩ := shouldRun_createTags_none.mp happlies
    rw [tagsToAdd_none]
    exact .tags (clusterIdentifier_of_id hvalue) hrestore htags (addsTags_createTagsRequest _ _)
  case enableLogging =>
    obtain ⟨logging, hlogging⟩ := Option.isSome_iff_exists.mp
      (shouldRun_enableLogging_none.mp happlies)
    simp only [hlogging, Option.getD_some]
    exact .logging (clusterIdentifier_of_id hvalue) hlogging
  case configureAqua =>
    obtain ⟨hwanted, hrestore⟩ := shouldRun_configureAqua_none.mp happlies
    obtain ⟨status, hstatus⟩ := Option.isSome_iff_exists.mp hwanted
    simp only [hstatus, Option.getD_some]
    exact .acceleration (clusterIdentifier_of_id hvalue) hrestore hstatus
  case putPolicy =>
    obtain ⟨policy, hpolicy⟩ := Option.isSome_iff_exists.mp (shouldRun_putPolicy_none.mp happlies)
    simp only [hpolicy, Option.getD_some]
    exact .policy hpolicy

section Runs

variable {run : Run Cluster} {limit : Nat}
  (hrun : (family s scope).CarriesOut .create ⟨desired, none⟩ run)
include hrun

/-- For each request that a new cluster takes, the chain has a step that always applies. -/
theorem exists_step_of_requested (h : Requested scope desired request) :
    ∃ step ∈ run.chain.steps, (step.name, request.operation) ∈ operations ∧
      run.Verdict step true := by
  have hfixed : ∀ {step : Step Cluster}, step.FixedGate →
      step.shouldRun ⟨desired, none⟩ .empty = true → run.Verdict step true :=
    fun hfixed => Run.verdict_of_shouldRun hfixed hrun.targets
  rw [← show createChain s scope = run.chain from Option.some.inj hrun.chain]
  cases h with
  | creation =>
    exact ⟨creationStep s desired, creationStep_mem s scope desired,
      mem_operations_creation s desired, hfixed fixedGate_creationStep shouldRun_creationStep⟩
  | tags _ hrestore htags hadds =>
    have hown : ("create-tags", request.operation) ∈ operations := by
      rw [hadds.operation]
      exact List.mem_of_elem_eq_true rfl
    exact ⟨Step.createTags scope, by simp [createChain], hown,
      hfixed (fun _ _ _ => rfl) (shouldRun_createTags_none.mpr ⟨hrestore, htags⟩)⟩
  | logging _ hlogging =>
    exact ⟨Step.enableLogging, by simp [createChain], List.mem_of_elem_eq_true rfl,
      hfixed (fun _ _ _ => rfl) (shouldRun_enableLogging_none.mpr (by rw [hlogging]; rfl))⟩
  | acceleration _ hrestore hstatus =>
    exact ⟨Step.configureAqua s.aquaMinObservations s.modification, by simp [createChain],
      List.mem_of_elem_eq_true rfl, hfixed (fun _ _ _ => rfl)
        (shouldRun_configureAqua_none.mpr ⟨by rw [hstatus]; rfl, hrestore⟩)⟩
  | policy hpolicy =>
    exact ⟨Step.putResourcePolicy, by simp [createChain], List.mem_of_elem_eq_true rfl,
      hfixed (fun _ _ _ => rfl) (shouldRun_putPolicy_none.mpr (by rw [hpolicy]; rfl))⟩

/-- The step that makes the cluster is complete only when a look after the accepted request found
the cluster available. -/
theorem available_of_completes {j : Journal} (hsub : j ⊆ run.journal limit)
    (h : run.Completes (creationStep s desired) j) :
    ∃ front back identifier state, j = front ++ back ∧
      (∃ exchange ∈ front.exchanges, accepts (creation desired).operation exchange = true) ∧
      desired.clusterIdentifier = some identifier ∧
      ⟨.describe identifier, .ok state⟩ ∈ back.exchanges ∧ isAvailable state = true := by
  cases h with
  | tolerated _ _ hissued =>
    cases hissued with
    | tolerated _ _ hlives => cases (suppress_creationStep _ _).symm.trans hlives
  | @carriedOut n _ _ _ _ _ request response _ before first _ third after _ _ _ hsent hstabilized =>
    rw [hrun.targets, show run.faults = faults from hrun.faults] at hstabilized
    obtain ⟨l, identifier, state, rfl, hid, hcall, havailable⟩ :=
      available_of_stabilized hstabilized
    have hin : sent (creationStep s desired) request (.ok response) ∈ run.journal limit :=
      hsub (List.mem_append_left _ (List.mem_append_left _ (List.mem_append_left _ hsent)))
    have hcreation : Requested scope desired (creation desired) := .creation
    have hfor := sends_eq_isFor hrun.chain (mem_operations_creation s desired)
      hcreation.isReading_eq_false hin
    refine ⟨before ++ first, looked (creationStep s desired) l (.ok state) :: (third ++ after),
      identifier, state, by simp, ⟨_, Journal.mem_exchanges.mpr ⟨_, hsent⟩, ?_⟩, hid, ?_,
      havailable⟩
    · exact Bool.and_eq_true_iff.mpr ⟨hfor.symm.trans (by simp [Entry.sends]), rfl⟩
    · rw [← hcall]
      exact List.mem_cons_self

/-- Once a pass is past the step that makes the cluster, the cluster is made. -/
theorem made_of_mem_front {n : Nat} {front rest : List (Step Cluster)} {past : Journal}
    (harrives : run.Arrives n rest r past) (hsub : past ⊆ run.journal limit)
    (hfront : run.chain.steps = front ++ rest) (hmem : creationStep s desired ∈ front) :
    Made s desired past := by
  have hnames := namesApart hrun.chain
  have hkeeps := keepsMarks_run hrun
  have hstep : creationStep s desired ∈ run.chain.steps := by simp [hfront, hmem]
  have hverdict : run.Verdict (creationStep s desired) true :=
    Run.verdict_of_shouldRun fixedGate_creationStep hrun.targets shouldRun_creationStep
  have hdone := harrives.isDone_of_mem_front hkeeps hverdict hfront hmem
  have hcompletes := harrives.completes_of_isDone hnames hkeeps hrun.start hstep hdone
  refine ⟨available_of_completes hrun hsub hcompletes, ?_⟩
  intro hcoolDown
  exact ⟨_, harrives.suspended_of_isDone hnames hkeeps hrun.start hstep
    (onComplete_creationStep hcoolDown) suppress_creationStep hdone⟩

/-- No request but that for the cluster itself is made before the cluster is made. -/
theorem throughout_made : (run.journal limit).Throughout fun before entry =>
    ∀ purpose sent answer, entry = .exchanged purpose ⟨.invoke sent, answer⟩ →
      sent.operation ≠ (creation desired).operation → Made s desired before := by
  rintro before _ after hsplit purpose sent answer rfl hother
  obtain ⟨n, step, rest, r, past, between, harrives, htakes, hmade, rfl⟩ :=
    run.throughout_madeBy limit before _ after hsplit rfl
  refine Made.append ?_ between
  rw [hrun.targets] at hmade htakes
  obtain ⟨front, hfront⟩ := harrives.exists_front
  have hchain : createChain s scope = run.chain := Option.some.inj hrun.chain
  have happlies := (Bool.and_eq_true_iff.mp htakes).2
  rcases eq_creationStep_or_mem_front (hchain ▸ hfront) happlies with rfl | hmem
  · -- The step that makes the cluster asks for nothing else, and looks at the cluster itself.
    rcases hmade.request_or_look with ⟨request, _, hcall, hrequest⟩ | ⟨_, l, _, hcall, hdeclared⟩
    · cases hcall
      rw [← Except.ok.inj (request_creationStep.symm.trans hrequest)] at hother
      exact absurd rfl hother
    · obtain ⟨_, _, hlook⟩ := probe_of_stabilization hdeclared
      cases hcall.trans (Option.some.inj hlook)
  · have hsub : past ⊆ run.journal limit := by
      rw [hsplit, List.append_assoc]
      exact List.subset_append_left _ _
    exact made_of_mem_front hrun harrives hsub hfront hmem

end Runs

/-- A creation makes no other call that changes something than the requests that the new cluster
takes, each as the desired model says; tags are added all at once and in their order. When it
succeeds, each of these has been accepted once. No
request but that for the cluster itself is made before this one is accepted, a later look finds the
cluster available, and the cool-down is served. -/
theorem create_applies_requested (s : Settings) (scope : ResourceScope) (remote : Remote)
    {request : HandlerRequest Cluster} {desired : Cluster} (hcreate : request.operation = .create)
    (hdesired : request.desired = some desired) (hprevious : request.previous = none)
    (hprogress : request.progress = none) (limit : Nat) :
    (∀ call ∈ ((family s scope).journal remote request limit).calls, isReading call = true ∨
      ∃ sent, call = .invoke sent ∧ Requested scope desired sent) ∧
    ((family s scope).Succeeds remote request limit →
      ∀ sent, Requested scope desired sent →
        ((family s scope).journal remote request limit).exchanges.countP
          (accepts sent.operation) = 1) ∧
    ((family s scope).journal remote request limit).Throughout fun before entry =>
      ∀ purpose sent answer, entry = .exchanged purpose ⟨.invoke sent, answer⟩ →
        sent.operation ≠ (creation desired).operation → Made s desired before := by
  rcases Family.journal_eq_nil_or_exists_run (f := family s scope) (by simp [hcreate]) hdesired
    hprogress remote limit with ⟨hnone, hfails⟩ | ⟨run, hrun, hjournal, hends⟩
  · rw [hnone]
    exact ⟨nofun, fun hsucceeds => absurd hsucceeds hfails, Journal.throughout_nil⟩
  · rw [hcreate, hprevious] at hrun
    rw [hjournal]
    refine ⟨fun call => isReading_or_wanted hrun ?_, ?_, throughout_made hrun⟩
    · rw [← Option.some.inj hrun.chain]
      exact requested_of_request
    · intro hsucceeds sent hrequested
      obtain ⟨n, model, hends⟩ := hends hsucceeds
      obtain ⟨step, hstep, hown, hverdict⟩ := exists_step_of_requested hrun hrequested
      rw [← fulfills_eq_accepts hrequested.ne_removal]
      exact countP_fulfills hrun hown hrequested.isReading_eq_false hstep rfl hverdict hends

/-- A cluster that is to be restored and to have tags. -/
def restoredCluster : Cluster where
  clusterIdentifier := some "analytics"
  snapshotIdentifier := some "nightly"
  tags := some [⟨"team", "data"⟩, ⟨"tier", "gold"⟩]

/-- The request to restore it. -/
def restoration : HandlerRequest Cluster where
  operation := .create
  desired := some restoredCluster

/-- The journal of its restoration by a service that has it available at once. -/
def restorationJournal : Journal :=
  (family {} {}).journal ({ describe := [.ok (.object [("ClusterStatus", .string "available")])] :
    Script }).remote restoration 2

/-- Over the two passes of a restoration, with the cool-down between them, the snapshot is restored
once and the two tags are added once, in their order, and not before the cluster is made. -/
theorem restoration_applies_requested :
    restorationJournal.exchanges.countP (accepts "RestoreFromClusterSnapshot") = 1 ∧
      restorationJournal.exchanges.countP (accepts "CreateTags") = 1 ∧
      (∀ sent, .invoke sent ∈ restorationJournal.calls → sent.operation = "CreateTags" →
        AddsTags "arn:aws:redshift:us-east-1:123456789012:cluster:analytics"
          [⟨"team", "data"⟩, ⟨"tier", "gold"⟩] sent) ∧
      restorationJournal.Throughout fun before entry => ∀ purpose sent answer,
        entry = .exchanged purpose ⟨.invoke sent, answer⟩ →
          sent.operation ≠ "RestoreFromClusterSnapshot" → Made {} restoredCluster before := by
  obtain ⟨hcalls, hsuccess, hmade⟩ := create_applies_requested {} {}
    ({ describe := [.ok (.object [("ClusterStatus", .string "available")])] : Script }).remote
    (show restoration.operation = .create from rfl) rfl rfl rfl 2
  have haccepted := hsuccess (by decide +kernel)
  refine ⟨haccepted _ .creation, ?_, ?_, hmade⟩
  · exact haccepted _ (.tags rfl rfl (by decide) (addsTags_createTagsRequest _ _))
  · intro sent hsent hoperation
    rcases hcalls _ hsent with hreading | ⟨_, heq, hrequested⟩
    · simp [isReading, hoperation] at hreading
    · obtain rfl := Call.invoke.inj heq
      cases hrequested with
      | tags hid _ _ hadds =>
        obtain rfl := Option.some.inj hid
        exact hadds
      | creation => exact absurd hoperation (by decide)
      | logging => simp [enableLoggingRequest] at hoperation
      | acceleration => simp [aquaRequest] at hoperation
      | policy => simp [putPolicyRequest] at hoperation

end Lifecycle.Cluster
