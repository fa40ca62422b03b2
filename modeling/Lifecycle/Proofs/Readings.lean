import Lifecycle.Proofs.Cluster.ReportedModel
import Lifecycle.Proofs.EndpointAccess.Steps

/-!
# What a reading reports

A reading reports the resource that its page describes. Where the page describes none, it does
not fail: it reports what the caller asked for, a cluster with its logging and policy as they were
read, an endpoint as it is (`reads_described_or_desired`).
-/

namespace Lifecycle

open Json ProgressRecord Chain

namespace EndpointAccess

variable {s : Settings} {operation : Operation} {target : Target EndpointAccess}
  {run : Run EndpointAccess} {n limit : Nat} {reported : Option EndpointAccess}

/-- The model after a page came in; a page without an endpoint tells nothing. -/
def withPage (page : Value) (model : EndpointAccess) : EndpointAccess :=
  ((firstDescribed? page).map ofDescription).getD model

/-- The model keeps up with the journal. -/
theorem keepsUp_model : ∀ step ∈ steps, step.KeepsUp (fun r model => r.model = some model)
    (absorb "describe-endpoint-access" withPage) := by
  apply forall_mem_steps
  case describe =>
    refine Step.keepsUp_of_model (fun _ _ _ => rfl) ?_ fun _ _ => rfl
    intro r model hmodel request response
    simp only [absorb_sent, Step.describeEndpointAccess, if_true, withPage]
    cases firstDescribed? response with
    | none => exact hmodel
    | some description => rfl
  all_goals exact Step.keepsUp_of_model (fun _ _ _ => rfl) (fun h _ _ => h) fun _ _ => rfl

section Runs

variable (hrun : (family s).CarriesOut operation target run)
include hrun

/-- Every operation but a removal ends with the reading of the endpoint and reports its model. -/
theorem describe_of_carriesOut (hoperation : operation ≠ .delete) :
    Step.describeEndpointAccess ∈ run.chain.steps ∧ run.chain.config.terminal = .model := by
  have hchain := hrun.chain
  cases operation with
  | delete => exact absurd rfl hoperation
  | list => cases hchain
  | create | read | update =>
    rw [← Option.some.inj hchain]
    exact ⟨by simp, rfl⟩

/-- In a run that ends with success the page is answered once, and the model is the endpoint that it
describes, or else the desired one. -/
theorem eq_withPage_of_ends (hoperation : operation ≠ .delete)
    (hends : run.Ends n (.ok (.success reported)) (run.journal limit)) :
    ∃ page, (run.journal limit).answersTo "describe-endpoint-access" = [page] ∧
      reported = some (withPage page target.desired) := by
  obtain ⟨hstep, hterminal⟩ := describe_of_carriesOut hrun hoperation
  have hkeeps := keepsMarks_run hrun
  have hverdict : run.Verdict Step.describeEndpointAccess true :=
    Run.verdict_of_shouldRun (fun _ _ _ => rfl) hrun.targets rfl
  obtain ⟨page, hpages⟩ :
      ∃ page, (run.journal limit).answersTo "describe-endpoint-access" = [page] :=
    hends.exists_answersTo_eq (namesApart hrun.chain) hkeeps hrun.start hverdict
      (fun _ _ => rfl) hstep
  obtain ⟨r, harrives, rfl⟩ := hends.exists_arrives_of_model hterminal
  refine ⟨page, hpages, ?_⟩
  have hsteps := fun step hstep => keepsUp_model step (mem_steps_of_chain hrun.chain hstep)
  rw [harrives.model_eq (onlyAnswers_absorb _ _) hsteps hrun.start hrun.targets,
    Journal.foldl_absorb, hpages, List.foldl_cons, List.foldl_nil]

end Runs

end EndpointAccess

namespace Cluster

/-- The model that a reading reports whose page describes no cluster: the desired one, with logging
and policy as they were read. -/
def undescribedModel (desired : Cluster) (status : Value) (policy : Option Value) : Cluster :=
  { desired with
    loggingProperties := loggingOfStatus? status
    namespaceResourcePolicy := (policy.map policyOfResponse?).getD desired.namespaceResourcePolicy }

/-- A page that describes no cluster leaves the desired model but for logging and policy. -/
theorem readModel_of_undescribed {page : Value} (h : firstDescribed? page = none)
    (desired : Cluster) (status : Value) (policy : Option Value) :
    readModel desired page status policy = undescribedModel desired status policy := by
  rw [readModel, withPage, h]
  cases policy <;> rfl

end Cluster

/-- A reading that succeeds had its page answered once. It reports the resource that the page
describes; if the page describes none, it reports the desired model all the same, a cluster with its
logging status and its policy as they were read. -/
theorem reads_described_or_desired (s : Settings) (scope : ResourceScope) (remote : Remote)
    (limit : Nat) :
    (∀ {request desired reported}, request.operation = .read → request.desired = some desired →
      request.progress = none → (Cluster.family s scope).Reports remote request limit reported →
      ∃ page status policy,
        ((Cluster.family s scope).journal remote request limit).answersTo "describe-cluster" =
          [page] ∧
        ((Cluster.family s scope).journal remote request limit).answersTo
          "describe-logging-status" = [status] ∧
        ((Cluster.family s scope).journal remote request limit).answersTo "get-resource-policy" =
          Option.toList policy ∧
        reported = some (match Cluster.firstDescribed? page with
          | some description => Cluster.reportedModel desired description status policy
          | none => Cluster.undescribedModel desired status policy)) ∧
    (∀ {request desired reported}, request.operation = .read → request.desired = some desired →
      request.progress = none → (EndpointAccess.family s).Reports remote request limit reported →
      ∃ page,
        ((EndpointAccess.family s).journal remote request limit).answersTo
          "describe-endpoint-access" = [page] ∧
        reported = some (match EndpointAccess.firstDescribed? page with
          | some description => EndpointAccess.ofDescription description
          | none => desired)) := by
  constructor
  · intro request desired reported hread hdesired hprogress hreports
    obtain ⟨run, n, hrun, hjournal, hends⟩ :=
      hreports.exists_run (by simp [hread]) hdesired hprogress
    obtain ⟨page, status, policy, hpage, hstatus, hpolicy, rfl⟩ :=
      Cluster.eq_readModel_of_ends hrun (by simp [hread]) hends
    rw [hjournal]
    refine ⟨page, status, policy, hpage, hstatus, hpolicy, ?_⟩
    cases hfirst : Cluster.firstDescribed? page with
    | some description => rw [Cluster.readModel_of_described hfirst]
    | none => rw [Cluster.readModel_of_undescribed hfirst]
  · intro request desired reported hread hdesired hprogress hreports
    obtain ⟨run, n, hrun, hjournal, hends⟩ :=
      hreports.exists_run (by simp [hread]) hdesired hprogress
    obtain ⟨page, hpage, rfl⟩ := EndpointAccess.eq_withPage_of_ends hrun (by simp [hread]) hends
    refine ⟨page, hjournal ▸ hpage, ?_⟩
    rw [EndpointAccess.withPage]
    cases EndpointAccess.firstDescribed? page <;> rfl

/-- A request to read a cluster. -/
def ghostCluster : HandlerRequest Cluster where
  operation := .read
  desired := some { clusterIdentifier := some "ghost", nodeType := some "ra3.xlplus" }

/-- A request to read an endpoint. -/
def ghostEndpoint : HandlerRequest EndpointAccess where
  operation := .read
  desired := some { endpointName := some "ghost", address := some "10.0.0.1" }

/-- A service whose pages have this cluster and this endpoint, if any. -/
def paging (cluster endpoint : Option Value) : Remote := fun _ call =>
  match call with
  | .invoke ⟨"DescribeClusters", _⟩ => .ok (.object [("Clusters", .array cluster.toList)])
  | .invoke ⟨"DescribeEndpointAccess", _⟩ =>
    .ok (.object [("EndpointAccessList", .array endpoint.toList)])
  | _ => .ok (.object [])

/-- A reading reports the nodes of the cluster that its page describes and no longer the ones that
were asked for. -/
theorem ghostCluster_reads_described :
    ∃ reported, (Cluster.family {} {}).Reports
        (paging (some (.object [("NodeType", .string "dc2.large")])) none) ghostCluster 1
        (some reported) ∧
      reported.nodeType = some "dc2.large" := by
  have hsucceeds : (Cluster.family {} {}).Succeeds
      (paging (some (.object [("NodeType", .string "dc2.large")])) none) ghostCluster 1 := by
    decide +kernel
  obtain ⟨model, hreports⟩ := hsucceeds.exists_reports (by decide) rfl rfl
  obtain ⟨page, status, policy, hpage, _, _, hmodel⟩ :=
    (reads_described_or_desired {} {} _ 1).1 rfl rfl rfl hreports
  have hnodes : (((Cluster.family {} {}).journal
      (paging (some (.object [("NodeType", .string "dc2.large")])) none) ghostCluster 1).answersTo
        "describe-cluster").head?.bind Cluster.firstDescribed? >>= (·.stringAt? "NodeType") =
          some "dc2.large" := by decide +kernel
  rw [hpage, List.head?_cons] at hnodes
  obtain ⟨description, hdescribed, hnodes⟩ := Option.bind_eq_some_iff.mp hnodes
  rw [Option.bind_some] at hdescribed
  rw [hdescribed] at hmodel
  exact ⟨_, hmodel ▸ hreports, hnodes⟩

/-- Readings whose pages list nothing succeed and report what the caller asked for. -/
theorem ghosts_read_undescribed :
    (((Cluster.family {} {}).journal (paging none none) ghostCluster 1).answersTo
        "describe-cluster").map (fun page => (Cluster.firstDescribed? page).isSome) = [false] ∧
    (((EndpointAccess.family {}).journal (paging none none) ghostEndpoint 1).answersTo
        "describe-endpoint-access").map
          (fun page => (EndpointAccess.firstDescribed? page).isSome) = [false] ∧
    ((Cluster.family {} {}).invocations (paging none none) ghostCluster 1 none []).map
        (·.isSuccess) = [true] ∧
    (((Cluster.family {} {}).invocations (paging none none) ghostCluster 1 none []).map fun i =>
        i.response.toOption.bind (·.model) == ghostCluster.desired) = [true] ∧
    ((EndpointAccess.family {}).invocations (paging none none) ghostEndpoint 1 none []).map
        (·.isSuccess) = [true] ∧
    ((EndpointAccess.family {}).invocations (paging none none) ghostEndpoint 1 none []).map
        (·.response.toOption.bind (·.model)) = [ghostEndpoint.desired] := by
  decide +kernel

end Lifecycle
