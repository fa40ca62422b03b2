import Lifecycle.Proofs.Cluster.Gates
import Lifecycle.Proofs.EndpointAccess.Steps

/-!
# What holds of both families

Requests of the two families that are handed in without progress, and then with the
progress of the response before, are judged alike in every pass (`gates_stable`), and no
invocation stops at a defect (`never_stops_at_defect`): a desired model without identifier
is turned away, and a request that names the namespace is made only where it is known.
-/

namespace Lifecycle

open Json ProgressRecord Chain

variable {M : Type}

namespace Family

variable {f : Family M} {remote : Remote} {request : HandlerRequest M}

/-- Every invocation of a request is answered if no pass of its run stops at a defect. -/
theorem exists_response
    (hpasses : ∀ {chain desired n result journal}, f.chainFor request = .ok (chain, desired) →
      (f.runOf remote request chain desired).Ends n result journal →
        ∃ outcome, result = .ok outcome)
    (limit : Nat) :
    ∀ invocation ∈ f.invocations remote request limit request.progress [],
      ∃ response, invocation.response = .ok response := by
  intro invocation hinvocation
  by_cases hlist : request.operation = .list
  · exact invocations_of_list hlist limit _ _ invocation hinvocation
  · cases hchain : f.chainFor request with
    | error refusal =>
      rw [invocations_of_refused hlist hchain limit _ _ invocation hinvocation]
      exact ⟨_, rfl⟩
    | ok found =>
      obtain ⟨chain, desired⟩ := found
      obtain ⟨n, result, journal, hends, hresponse⟩ :=
        exists_ends_of_mem_invocations hlist hchain hinvocation
      obtain ⟨outcome, rfl⟩ := hpasses hchain hends
      exact ⟨.ofOutcome outcome, hresponse⟩

end Family

/-- Whatever is asked of the two families and whatever the service answers, the gates of the run
that follows are stable. -/
theorem gates_stable :
    (∀ (s : Settings) (scope : ResourceScope) (remote : Remote) (request : HandlerRequest Cluster)
      (chain : Chain Cluster) (desired : Cluster), request.progress = none →
      (Cluster.family s scope).chainFor request = .ok (chain, desired) →
      ((Cluster.family s scope).runOf remote request chain desired).StableGates) ∧
    (∀ (s : Settings) (remote : Remote) (request : HandlerRequest EndpointAccess)
      (chain : Chain EndpointAccess) (desired : EndpointAccess), request.progress = none →
      (EndpointAccess.family s).chainFor request = .ok (chain, desired) →
      ((EndpointAccess.family s).runOf remote request chain desired).StableGates) := by
  constructor
  · intro s scope remote request chain desired hprogress hchain
    exact Cluster.stableGates (Family.carriesOut_runOf hprogress hchain)
  · intro s remote request chain desired hprogress hchain
    exact EndpointAccess.stableGates (Family.carriesOut_runOf hprogress hchain)

/-- A cluster whose namespace is known and that is to have a policy. -/
def knownCluster : Cluster where
  clusterIdentifier := some "analytics"
  namespaceResourcePolicy := some (.object [])
  clusterNamespaceArn := some "arn:ns"

/-- An update that attaches a policy to a cluster that has none. -/
def attachRequest : HandlerRequest Cluster where
  operation := .update
  desired := some knownCluster
  previous := some (.named "analytics")

/-- An endpoint with one security group. -/
def groupedEndpoint : EndpointAccess where
  endpointName := some "reports"
  vpcSecurityGroupIds := some ["sg-1"]

/-- An update of an endpoint that changes nothing. -/
def keepRequest : HandlerRequest EndpointAccess where
  operation := .update
  desired := some groupedEndpoint
  previous := some groupedEndpoint

/-- The run of the update that attaches a policy, against a service that answers nothing of note. -/
def attachRun : Run Cluster :=
  (Cluster.family {} {}).runOf (fun _ _ => .ok .null) attachRequest (Cluster.updateChain {} {})
    knownCluster

/-- The run of the update that changes nothing, against the same service. -/
def keepRun : Run EndpointAccess :=
  (EndpointAccess.family {}).runOf (fun _ _ => .ok .null) keepRequest
    ⟨"update", Settings.chainConfig {}, [EndpointAccess.Step.modifyEndpointAccess,
      EndpointAccess.Step.describeEndpointAccess]⟩ groupedEndpoint

/-- The first pass of the update that attaches a policy skips all steps before the one that looks
the namespace up. -/
theorem attachRun_arrives : ∃ rest r past, attachRun.Arrives 0
    (Cluster.Step.resolveNamespace :: Cluster.Step.putResourcePolicy :: rest) r past ∧
      r.isDone "resolve-namespace" = false ∧
      Cluster.Step.resolveNamespace.shouldRun (attachRun.targets 0) r = false ∧
      takesUp (attachRun.targets 0) Cluster.Step.putResourcePolicy r = true :=
  ⟨_, _, _, (((((Run.Arrives.start.passedOver rfl).passedOver rfl).passedOver rfl).passedOver
    rfl).passedOver rfl).passedOver rfl, rfl, rfl, rfl⟩

/-- The update that attaches a policy knows the namespace and never looks it up; the update that
changes nothing never sends the groups. -/
theorem attach_and_keep_skip :
    (∀ limit, ∀ entry ∈ attachRun.journal limit, entry.callsFor "resolve-namespace" = false) ∧
      (∀ limit, ∀ entry ∈ keepRun.journal limit,
        entry.callsFor "modify-endpoint-access" = false) := by
  constructor
  · obtain ⟨rest, r, past, harrives, hopen, hskips, _⟩ := attachRun_arrives
    exact (gates_stable.1 {} {} _ attachRequest _ _ rfl rfl).skipped harrives hopen hskips
  · exact (gates_stable.2 {} _ keepRequest _ _ rfl rfl).skipped .start rfl rfl

/-- Whatever is asked of the two families and whatever the service answers, each invocation is
answered: no model without identifier gets as far as a step, and no request that names the
namespace of a cluster is made where it is not known. -/
theorem never_stops_at_defect :
    (∀ (s : Settings) (scope : ResourceScope) (remote : Remote) (request : HandlerRequest Cluster),
      request.progress = none →
      (∀ limit, ∀ invocation ∈ (Cluster.family s scope).invocations remote request limit none [],
        ∃ response, invocation.response = .ok response) ∧
      ∀ chain desired, (Cluster.family s scope).chainFor request = .ok (chain, desired) →
        desired.clusterIdentifier.isSome = true ∧
        ∀ n step rest r past,
          ((Cluster.family s scope).runOf remote request chain desired).Arrives n (step :: rest) r
            past → takesUp ⟨desired, request.previous⟩ step r = true →
          step.name ∈ ["put-resource-policy", "delete-resource-policy", "get-resource-policy"] →
          (Cluster.knownNamespace? ⟨desired, request.previous⟩ r).isSome = true) ∧
    (∀ (s : Settings) (remote : Remote) (request : HandlerRequest EndpointAccess),
      request.progress = none →
      (∀ limit, ∀ invocation ∈ (EndpointAccess.family s).invocations remote request limit none [],
        ∃ response, invocation.response = .ok response) ∧
      ∀ chain desired, (EndpointAccess.family s).chainFor request = .ok (chain, desired) →
        desired.endpointName.isSome = true) := by
  constructor
  · intro s scope remote request hprogress
    refine ⟨fun limit => ?_, ?_⟩
    · rw [← hprogress]
      refine Family.exists_response ?_ limit
      intro chain desired n result journal hchain hends
      have hrefusal := (Family.of_chainFor_eq_ok hchain).2.2
      obtain ⟨identifier, hid⟩ := Option.isSome_iff_exists.mp (Cluster.isSome_of_refusal hrefusal)
      exact Cluster.exists_outcome (Family.carriesOut_runOf hprogress hchain) hid hends
    · intro chain desired hchain
      refine ⟨Cluster.isSome_of_refusal (Family.of_chainFor_eq_ok hchain).2.2, ?_⟩
      intro n step rest r past harrives htakes hname
      exact Cluster.known_of_takesUp (Family.carriesOut_runOf hprogress hchain) harrives htakes
        hname
  · intro s remote request hprogress
    refine ⟨fun limit => ?_, ?_⟩
    · rw [← hprogress]
      refine Family.exists_response ?_ limit
      intro chain desired n result journal hchain hends
      have hrefusal := (Family.of_chainFor_eq_ok hchain).2.2
      obtain ⟨endpoint, hname⟩ :=
        Option.isSome_iff_exists.mp (EndpointAccess.isSome_of_refusal hrefusal)
      exact EndpointAccess.exists_outcome (Family.carriesOut_runOf hprogress hchain) hname hends
    · intro chain desired hchain
      exact EndpointAccess.isSome_of_refusal (Family.of_chainFor_eq_ok hchain).2.2

/-- The update that attaches a policy is answered each time, and names a namespace that is known. -/
theorem attach_answered :
    (∀ limit, ∀ invocation ∈ (Cluster.family {} {}).invocations (fun _ _ => .ok .null)
      attachRequest limit none [], ∃ response, invocation.response = .ok response) ∧
    (∃ rest r past, attachRun.Arrives 0 (Cluster.Step.putResourcePolicy :: rest) r past ∧
      (Cluster.knownNamespace? ⟨knownCluster, some (.named "analytics")⟩ r).isSome = true) ∧
    (∀ limit, ∀ invocation ∈ (EndpointAccess.family {}).invocations (fun _ _ => .ok .null)
      keepRequest limit none [], ∃ response, invocation.response = .ok response) := by
  obtain ⟨hanswered, hmade⟩ :=
    never_stops_at_defect.1 {} {} (fun _ _ => .ok .null) attachRequest rfl
  refine ⟨hanswered, ?_, (never_stops_at_defect.2 {} _ keepRequest rfl).1⟩
  obtain ⟨rest, r, past, harrives, _, hskips, htakes⟩ := attachRun_arrives
  have hput := harrives.passedOver (by rw [takesUp, hskips, Bool.and_false])
  have hknown := (hmade _ _ rfl).2 _ _ _ _ _ hput htakes (by decide)
  exact ⟨rest, r, past, hput, hknown⟩

end Lifecycle
