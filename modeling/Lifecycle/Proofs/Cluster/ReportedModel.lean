import Lifecycle.Proofs.Answers
import Lifecycle.Proofs.Cluster.KeptPolicy
import Lifecycle.Proofs.Replay

/-!
# The model that a cluster operation reports

Three answers make up the model that an operation reports: the page of the cluster, its
logging status and its policy. Whatever else a run did, wherever it was suspended, the model
of a success is made of the desired one and these three answers (`eq_readModel_of_ends`).
-/

namespace Lifecycle.Cluster

open Json ProgressRecord Chain

variable {s : Settings} {scope : ResourceScope}

/-- The model after a page came in; a page without a cluster tells nothing. -/
def withPage (page : Value) (model : Cluster) : Cluster :=
  match firstDescribed? page with
  | some description => model.refresh description
  | none => model

/-- The model after the logging status came in. -/
def withLogging (status : Value) (model : Cluster) : Cluster :=
  { model with loggingProperties := loggingOfStatus? status }

/-- The model after the policy came in. -/
def withPolicy (response : Value) (model : Cluster) : Cluster :=
  { model with namespaceResourcePolicy := policyOfResponse? response }

/-- The model after an entry of the journal, as far as logging and policy go. -/
def takeDetails (model : Cluster) (entry : Entry) : Cluster :=
  absorb "get-resource-policy" withPolicy
    (absorb "describe-logging-status" withLogging model entry) entry

/-- The model after an entry of the journal. -/
def takeReading (model : Cluster) (entry : Entry) : Cluster :=
  takeDetails (absorb "describe-cluster" withPage model entry) entry

theorem onlyAnswers_takeReading : OnlyAnswers takeReading :=
  (onlyAnswers_absorb _ _).comp ((onlyAnswers_absorb _ _).comp (onlyAnswers_absorb _ _))

/-- The model keeps up with the journal. -/
theorem keepsUp_model : ∀ step ∈ steps s scope,
    step.KeepsUp (fun r model => r.model = some model) takeReading := by
  have hplain : ∀ {step : Step Cluster}, (readBack.map (·.name)).contains step.name = false →
      (∀ response r, (step.capture response r).model = r.model) →
      (∀ observed r, (step.onComplete observed r).2.model = r.model) →
      step.KeepsUp (fun r model => r.model = some model) takeReading := by
    intro step hname hcapture hcomplete
    refine Step.keepsUp_of_model (fun _ _ _ => rfl) ?_ hcomplete
    intro r model hmodel request response
    obtain ⟨hpage, hlogging, hpolicy⟩ : step.name ≠ "describe-cluster" ∧
        step.name ≠ "describe-logging-status" ∧ step.name ≠ "get-resource-policy" := by
      simpa [readBack, Step.describeCluster, Step.describeLoggingStatus,
        Step.getResourcePolicy] using hname
    simp [takeReading, takeDetails, hpage, hlogging, hpolicy, hcapture, hmodel]
  apply forall_mem_steps
  case create | restore =>
    exact hplain rfl model_rememberNamespace (model_created _)
  case resolveNamespace =>
    refine hplain rfl model_rememberNamespace ?_
    intro observed r
    cases observed with
    | none => rfl
    | some page => exact model_rememberNamespace page r
  case describe =>
    refine Step.keepsUp_of_model (fun _ _ _ => rfl) ?_ fun _ _ => rfl
    intro r model hmodel request response
    simp only [takeReading, takeDetails, absorb_sent, Step.describeCluster, withPage]
    cases hfirst : firstDescribed? response with
    | none => simpa using hmodel
    | some description =>
      simp [updateModel, withModel, model_rememberNamespace, hmodel]
  case describeLogging =>
    refine Step.keepsUp_of_model (fun _ _ _ => rfl) ?_ fun _ _ => rfl
    intro r model hmodel request response
    simp [takeReading, takeDetails, Step.describeLoggingStatus, withLogging, updateModel, withModel,
      hmodel]
  case getPolicy =>
    refine Step.keepsUp_of_model (fun _ _ _ => rfl) ?_ fun _ _ => rfl
    intro r model hmodel request response
    simp [takeReading, takeDetails, Step.getResourcePolicy, withPolicy, updateModel, withModel,
      hmodel]
  all_goals
    exact hplain rfl (fun _ _ => rfl) (fun _ _ => rfl)

/-- Where the answers come in this order, the model is brought up to date by one after the other. -/
theorem foldl_takeReading {j : Journal}
    (hlogging : Journal.Throughout (fun before entry => entry.accepts "describe-cluster" = true →
      ∀ other ∈ before, other.accepts "describe-logging-status" = false) j)
    (hpolicy : Journal.Throughout (fun before entry => entry.accepts "describe-cluster" = true →
      ∀ other ∈ before, other.accepts "get-resource-policy" = false) j)
    (hlast : Journal.Throughout (fun before entry =>
      entry.accepts "describe-logging-status" = true →
        ∀ other ∈ before, other.accepts "get-resource-policy" = false) j) (model : Cluster) :
    j.foldl takeReading model =
      (j.answersTo "get-resource-policy").foldl (fun model response => withPolicy response model)
        ((j.answersTo "describe-logging-status").foldl (fun model status => withLogging status model)
          ((j.answersTo "describe-cluster").foldl (fun model page => withPage page model)
            model)) := by
  have hdetails := Journal.foldl_absorb_comp "describe-cluster" withPage takeDetails (j := j) ?_
    model
  have hlater := Journal.foldl_absorb_comp "describe-logging-status" withLogging
    (absorb "get-resource-policy" withPolicy) (j := j) ?_
    (j.foldl (absorb "describe-cluster" withPage) model)
  · rw [← Journal.foldl_absorb, ← Journal.foldl_absorb, ← Journal.foldl_absorb, ← hlater]
    exact hdetails
  · refine hlast.imp ?_
    intro before entry _ hanswered haccepts other hother
    exact absorb_of_not_accepts withPolicy (hanswered haccepts other hother)
  · intro before entry after hsplit haccepts other hother model
    rw [takeDetails,
      absorb_of_not_accepts withLogging (hlogging before entry after hsplit haccepts other hother),
      absorb_of_not_accepts withPolicy (hpolicy before entry after hsplit haccepts other hother)]

/-- The model of a run that goes through: the desired one, brought up to date by the page, the
logging status and the policy, if that was read. -/
def readModel (desired : Cluster) (page status : Value) (policy : Option Value) : Cluster :=
  policy.toList.foldl (fun model response => withPolicy response model)
    (withLogging status (withPage page desired))

section Runs

variable {operation : Operation} {target : Target Cluster} {run : Run Cluster} {n limit : Nat}
  {reported : Option Cluster} (hrun : (family s scope).CarriesOut operation target run)
include hrun

/-- Every operation but a removal ends with the read-back and reports its model. -/
theorem readBack_of_carriesOut (hoperation : operation ≠ .delete) :
    (∃ front, run.chain.steps = front ++ readBack) ∧ run.chain.config.terminal = .model := by
  have hchain := hrun.chain
  cases operation with
  | delete => exact absurd rfl hoperation
  | list => cases hchain
  | create =>
    rw [← Option.some.inj hchain]
    exact ⟨⟨_, rfl⟩, rfl⟩
  | read =>
    rw [← Option.some.inj hchain]
    exact ⟨⟨[], rfl⟩, rfl⟩
  | update =>
    rw [← Option.some.inj hchain]
    exact ⟨⟨_, rfl⟩, rfl⟩

/-- In a run that ends with success the page and the logging status are answered once, the policy at
most once, and the model is made of the desired one and these answers. -/
theorem eq_readModel_of_ends (hoperation : operation ≠ .delete)
    (hends : run.Ends n (.ok (.success reported)) (run.journal limit)) :
    ∃ page status policy,
      (run.journal limit).answersTo "describe-cluster" = [page] ∧
      (run.journal limit).answersTo "describe-logging-status" = [status] ∧
      (run.journal limit).answersTo "get-resource-policy" = Option.toList policy ∧
      reported = some (readModel target.desired page status policy) := by
  obtain ⟨⟨front, hsteps⟩, hterminal⟩ := readBack_of_carriesOut hrun hoperation
  have hbefore : run.chain.steps = (front ++ [Step.describeCluster]) ++
      Step.describeLoggingStatus :: [Step.getResourcePolicy] := by simp [hsteps, readBack]
  have hlast : run.chain.steps = (front ++ [Step.describeCluster, Step.describeLoggingStatus]) ++
      Step.getResourcePolicy :: [] := by simp [hsteps, readBack]
  have hnames := namesApart hrun.chain
  have hkeeps := fun step hstep => keepsMarks step (mem_steps_of_chain hrun.chain hstep)
  have hpage : run.Verdict Step.describeCluster true :=
    Run.verdict_of_shouldRun (fun _ _ _ => rfl) hrun.targets rfl
  have hlogging : run.Verdict Step.describeLoggingStatus true :=
    Run.verdict_of_shouldRun (fun _ _ _ => rfl) hrun.targets rfl
  obtain ⟨page, hpages⟩ : ∃ page, (run.journal limit).answersTo "describe-cluster" = [page] :=
    hends.exists_answersTo_eq hnames hkeeps hrun.start hpage (fun _ _ => rfl)
      (by simp [hsteps, readBack])
  obtain ⟨status, hstatuses⟩ :
      ∃ status, (run.journal limit).answersTo "describe-logging-status" = [status] :=
    hends.exists_answersTo_eq hnames hkeeps hrun.start hlogging (fun _ _ => rfl)
      (by simp [hsteps, readBack])
  obtain ⟨policy, hpolicies⟩ :=
    run.exists_answersTo_eq_toList hkeeps limit "get-resource-policy"
  refine ⟨page, status, policy, hpages, hstatuses, hpolicies, ?_⟩
  obtain ⟨r, harrives, rfl⟩ := hends.exists_arrives_of_model hterminal
  have hsteps' := fun step hstep => keepsUp_model step (mem_steps_of_chain hrun.chain hstep)
  rw [harrives.model_eq onlyAnswers_takeReading hsteps' hrun.start hrun.targets, foldl_takeReading,
    hpages, hstatuses, hpolicies]
  · rfl
  · exact run.throughout_answered hnames hkeeps hrun.start hpage (fun _ _ => rfl) hbefore
      (by simp) limit
  · exact run.throughout_answered hnames hkeeps hrun.start hpage (fun _ _ => rfl) hlast
      (by simp) limit
  · exact run.throughout_answered hnames hkeeps hrun.start hlogging (fun _ _ => rfl) hlast
      (by simp) limit

end Runs

/-- The model that the service and the caller make up together: what the service describes, what it
never describes as desired, and logging and policy as they were read. -/
def reportedModel (desired : Cluster) (description status : Value) (policy : Option Value) :
    Cluster :=
  { ofDescription description with
    clusterIdentifier :=
      (ofDescription description).clusterIdentifier <|> desired.clusterIdentifier
    masterUserPassword := desired.masterUserPassword
    snapshotIdentifier := desired.snapshotIdentifier
    snapshotClusterIdentifier := desired.snapshotClusterIdentifier
    ownerAccount := desired.ownerAccount
    loggingProperties := loggingOfStatus? status
    namespaceResourcePolicy := policy.bind policyOfResponse? }

/-- A page that describes a cluster leaves nothing of what was desired but what no answer tells. -/
theorem readModel_of_described {page description : Value}
    (h : firstDescribed? page = some description) (desired : Cluster) (status : Value)
    (policy : Option Value) :
    readModel desired page status policy = reportedModel desired description status policy := by
  rw [readModel, withPage, h]
  cases policy <;> rfl

/-- When a creation, a reading or a change of a cluster succeeds, the page, the logging status and
the policy were answered once each, the policy possibly not at all. If the page describes a cluster,
the model reported is a function of the desired one and of these answers: neither the passes in
which they came nor anything else that was answered has a part in it. -/
theorem reports_what_was_read (s : Settings) (scope : ResourceScope) (remote : Remote)
    {request : HandlerRequest Cluster} {desired : Cluster}
    (hoperation : request.operation ∈ [Operation.create, .read, .update])
    (hdesired : request.desired = some desired) (hprogress : request.progress = none) {limit : Nat}
    {reported : Option Cluster} (hreports : (family s scope).Reports remote request limit reported) :
    ∃ page status policy,
      ((family s scope).journal remote request limit).answersTo "describe-cluster" = [page] ∧
      ((family s scope).journal remote request limit).answersTo "describe-logging-status" =
        [status] ∧
      ((family s scope).journal remote request limit).answersTo "get-resource-policy" =
        Option.toList policy ∧
      ∀ description, firstDescribed? page = some description →
        reported = some (reportedModel desired description status policy) := by
  have hlist : request.operation ≠ .list := by
    rintro heq
    simp [heq] at hoperation
  have hdelete : request.operation ≠ .delete := by
    rintro heq
    simp [heq] at hoperation
  obtain ⟨run, n, hrun, hjournal, hends⟩ := hreports.exists_run hlist hdesired hprogress
  obtain ⟨page, status, policy, hpage, hstatus, hpolicy, rfl⟩ :=
    eq_readModel_of_ends hrun hdelete hends
  rw [hjournal]
  refine ⟨page, status, policy, hpage, hstatus, hpolicy, ?_⟩
  intro description hdescribed
  rw [readModel_of_described hdescribed]

/-- A change of a cluster that changes nothing. -/
def idleUpdate : HandlerRequest Cluster :=
  let cluster : Cluster :=
    { clusterIdentifier := some "analytics"
      masterUserPassword := some "secret"
      nodeType := some "dc2.large"
      loggingProperties := some { bucketName := some "logs" }
      namespaceResourcePolicy := some (.string "stale") }
  { operation := .update, desired := some cluster, previous := some cluster }

/-- The page with a cluster whose nodes are of another type than was desired. -/
def resizedPage : Value :=
  .object [("Clusters", .array [.object [
    ("ClusterIdentifier", .string "analytics"), ("ClusterNamespaceArn", .string "arn:ns"),
    ("NodeType", .string "ra3.xlplus")]])]

/-- A service that turns the first request for the page and the first one for the logging status
away, has logging off, and knows of no policy. -/
def halting : Remote :=
  Script.remote
    { invoke := [
        ("DescribeClusters", [.error ⟨"Throttling", "Rate exceeded", 400⟩, .ok resizedPage]),
        ("DescribeLoggingStatus", [.error ⟨"Throttling", "Rate exceeded", 400⟩, .ok (.object [])]),
        ("GetResourcePolicy", [.error ⟨"ResourceNotFound", "No policy", 404⟩])] }

/-- An update that changes nothing, and is suspended twice on the way, reports the nodes that the
service described and the password that it never tells, and neither logging nor a policy. -/
theorem idleUpdate_reports :
    ((family {} {}).journal halting idleUpdate 3).countP (·.isPause) = 2 ∧
    ∃ reported, (family {} {}).Reports halting idleUpdate 3 (some reported) ∧
      reported.nodeType = some "ra3.xlplus" ∧ reported.masterUserPassword = some "secret" ∧
      reported.loggingProperties = none ∧ reported.namespaceResourcePolicy = none := by
  have hsucceeds : (family {} {}).Succeeds halting idleUpdate 3 := by decide +kernel
  obtain ⟨model, hreports⟩ := hsucceeds.exists_reports (by decide) rfl rfl
  obtain ⟨page, status, policy, hpage, hstatus, hpolicy, hmodel⟩ :=
    reports_what_was_read {} {} halting (by decide) rfl rfl hreports
  have hnodes : (((family {} {}).journal halting idleUpdate 3).answersTo
      "describe-cluster").head?.bind firstDescribed? >>= (·.stringAt? "NodeType") =
        some "ra3.xlplus" := by decide +kernel
  have hlogging : (((family {} {}).journal halting idleUpdate 3).answersTo
      "describe-logging-status").head?.bind loggingOfStatus? = none := by decide +kernel
  have hunread : (((family {} {}).journal halting idleUpdate 3).answersTo
      "get-resource-policy").isEmpty = true := by decide +kernel
  rw [hpage, List.head?_cons] at hnodes
  rw [hstatus, List.head?_cons] at hlogging
  obtain ⟨description, hdescribed, hnodes⟩ := Option.bind_eq_some_iff.mp hnodes
  obtain rfl : policy = none := by simpa [hpolicy] using hunread
  exact ⟨by decide +kernel, _, (hmodel description hdescribed) ▸ hreports, hnodes, rfl, hlogging, rfl⟩

end Lifecycle.Cluster
