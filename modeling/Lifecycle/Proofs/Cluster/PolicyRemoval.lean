import Lifecycle.Proofs.Cluster.KnownNamespace

/-!
# When an update removes the policy

The step that removes the policy belongs to the chain that changes a cluster and to
the one that removes it, and takes a missing previous model as a sign of the latter.
So an update that is not told the previous model attaches the desired policy and
removes it right away. `policy_removed_iff` says that it is removed in no other case.
-/

namespace Lifecycle.Cluster

open Json Chain ProgressRecord

variable {s : Settings} {scope : ResourceScope} {remote : Remote}

/-- The journal has an accepted request that attaches the policy. -/
def Attaches (j : Journal) : Prop :=
  ∃ request response, sent Step.putResourcePolicy request (.ok response) ∈ j

/-- The journal has a request that removes the policy. -/
def Removes (j : Journal) : Prop :=
  ∃ request answer, sent Step.deleteResourcePolicy request answer ∈ j

/-- A journal that goes on still removes the policy. -/
theorem Removes.append {past : Journal} (h : Removes past) (gained : Journal) :
    Removes (past ++ gained) := by
  obtain ⟨request, answer, hsent⟩ := h
  exact ⟨request, answer, List.mem_append_left gained hsent⟩

/-- The run of an update. -/
def updateRun (s : Settings) (scope : ResourceScope) (remote : Remote) (desired : Cluster)
    (previous : Option Cluster) : Run Cluster where
  chain := updateChain s scope
  faults := faults
  remote := remote
  targets _ := ⟨desired, previous⟩
  start := .empty

section Update

variable {desired : Cluster} {previous : Option Cluster} {n : Nat} {step : Step Cluster}
  {rest : List (Step Cluster)} {r : ProgressRecord Cluster} {past : Journal}

/-- The names of the steps of an update keep their marks apart. -/
theorem namesApart_update : (updateChain s scope).NamesApart :=
  namesApart (show (family s scope).chain .update = some (updateChain s scope) from rfl)

/-- The steps of an update are among those of the family. -/
theorem mem_steps_of_update (hstep : step ∈ (updateChain s scope).steps) : step ∈ steps s scope :=
  mem_steps_of_chain (show (family s scope).chain .update = some (updateChain s scope) from rfl)
    hstep

/-- The steps of an update leave the marks alone. -/
theorem keepsMarks_update : ∀ step ∈ (updateChain s scope).steps, step.KeepsMarks :=
  fun step hstep => keepsMarks step (mem_steps_of_update hstep)

/-- The policy is attached right before it may be removed. -/
theorem exists_split_update (s : Settings) (scope : ResourceScope) :
    ∃ front, (updateChain s scope).steps =
      front ++ Step.putResourcePolicy :: Step.deleteResourcePolicy :: readBack :=
  ⟨[_, _, _, _, _, _, _], rfl⟩

/-- An update has the step that attaches the policy and the one that removes it. -/
theorem mem_steps_update (s : Settings) (scope : ResourceScope) :
    Step.putResourcePolicy ∈ (updateChain s scope).steps ∧
      Step.deleteResourcePolicy ∈ (updateChain s scope).steps := by
  obtain ⟨front, hfront⟩ := exists_split_update s scope
  simp [hfront]

/-- A desired policy is to be removed only if there is no previous model. -/
theorem shouldRun_deleteResourcePolicy (hpolicy : desired.namespaceResourcePolicy.isSome = true)
    (previous : Option Cluster) (r : ProgressRecord Cluster) :
    Step.deleteResourcePolicy.shouldRun ⟨desired, previous⟩ r = true ↔
      previous = none ∧ (knownNamespace? ⟨desired, previous⟩ r).isSome = true := by
  cases previous with
  | none => simp [Step.deleteResourcePolicy, hpolicy]
  | some previous =>
    have hnone : desired.namespaceResourcePolicy.isNone = false := by
      rw [Option.isNone_eq_false_iff, hpolicy]
    simp [Step.deleteResourcePolicy, hnone]

/-- When an update without a previous model gets to the removal of the policy, the desired policy
was accepted before. -/
theorem attaches_of_arrives (hpolicy : desired.namespaceResourcePolicy.isSome = true)
    (harrives : (updateRun s scope remote desired none).Arrives n
      (Step.deleteResourcePolicy :: rest) r past) : Attaches past := by
  obtain ⟨before, hbefore⟩ := harrives.exists_front
  obtain ⟨front, hfront⟩ := exists_split_update s scope
  have hfront' : (updateChain s scope).steps =
      (front ++ [Step.putResourcePolicy]) ++ Step.deleteResourcePolicy :: readBack := by
    simp [hfront]
  obtain rfl := namesApart_update.front_eq hbefore hfront'
  have hdone : r.isDone Step.putResourcePolicy.name = true := by
    refine harrives.isDone_of_mem_front keepsMarks_update ?_ hbefore (by simp)
    intro _ _ _ _ _ _
    exact shouldRun_putPolicy_none.mpr hpolicy
  have hcompletes := harrives.completes_of_isDone namesApart_update keepsMarks_update rfl
    (mem_steps_update s scope).1 hdone
  exact hcompletes.sent fun _ _ => rfl

/-- An update removes the policy only without a previous model, and after the desired policy was
accepted. -/
theorem throughout_removed (hpolicy : desired.namespaceResourcePolicy.isSome = true) (limit : Nat) :
    Journal.Throughout (fun before entry => ∀ purpose exchange,
      entry = .exchanged purpose exchange → isFor "DeleteResourcePolicy" exchange.call = true →
        previous = none ∧ Attaches before)
      ((updateRun s scope remote desired previous).journal limit) := by
  refine (Run.throughout_madeBy _ limit).imp ?_
  rintro before entry _ hcall purpose exchange rfl hfor
  obtain ⟨n, step, steps, r, past, between, harrives, htakes, hmade, rfl⟩ := hcall rfl
  have hstep := harrives.mem
  have hoperation := mem_operations_of_isFor (mem_steps_of_update hstep) hmade hfor (by
    rintro request hrequest
    simp [isReading, hrequest])
  have hname : step.name = "delete-resource-policy" := by simpa [operations] using hoperation
  obtain rfl := namesApart_update.eq_of_name_eq hstep (mem_steps_update s scope).2 hname
  rw [takesUp, Bool.and_eq_true] at htakes
  obtain ⟨rfl, _⟩ := (shouldRun_deleteResourcePolicy hpolicy previous r).mp htakes.2
  obtain ⟨request, response, hsent⟩ := attaches_of_arrives hpolicy harrives
  exact ⟨rfl, request, response, List.mem_append_left between hsent⟩

/-- A visit to the removal of the policy sends the request, if it was not accepted before. -/
theorem removes_of_visits {remote : Remote}
    {result : Except Defect (Except (Outcome Cluster) (ProgressRecord Cluster))} {gained : Journal}
    (harrives : (updateRun s scope remote desired previous).Arrives n
      (Step.deleteResourcePolicy :: rest) r past)
    (hknown : (knownNamespace? ⟨desired, previous⟩ r).isSome = true)
    (hvisited : (updateRun s scope remote desired previous).Visits n Step.deleteResourcePolicy r past
      result gained) : Removes (past ++ gained) := by
  obtain ⟨arn, harn⟩ := Option.isSome_iff_exists.mp hknown
  have hrequest : Step.deleteResourcePolicy.request ⟨desired, previous⟩ r =
      .ok (deletePolicyRequest arn) := by
    simp only [Step.deleteResourcePolicy, knownNamespace_eq_ok_iff.mpr harn]
    rfl
  rcases hvisited.exists_sent hrequest with hinvoked | ⟨answer, hsent⟩
  · obtain ⟨request, response, hsent⟩ := harrives.sent_of_isInvoked namesApart_update
      keepsMarks_update rfl harrives.mem hinvoked
    exact ⟨request, .ok response, List.mem_append_left gained hsent⟩
  · exact ⟨_, answer, List.mem_append_right past hsent⟩

/-- A visit that attaches the policy is one to the step for this. It completes the step, and the
namespace is known after it. -/
theorem eq_completed_of_attaches {remote : Remote} {target : Target Cluster}
    {result : Except Defect (Except (Outcome Cluster) (ProgressRecord Cluster))} {gained : Journal}
    {config : ChainConfig} (hstep : step ∈ (updateChain s scope).steps)
    (hvisited : Visited faults config remote target step r past result gained)
    (hattaches : Attaches gained) :
    step = Step.putResourcePolicy ∧
      ∃ r', result = .ok (.ok r') ∧ (knownNamespace? target r').isSome = true := by
  obtain ⟨request, response, hsent⟩ := hattaches
  have hname : step.name = Step.putResourcePolicy.name :=
    Entry.name_eq_of_callsFor (hvisited.calls hsent rfl).callsFor (callsFor_sent _ request _)
  obtain rfl := namesApart_update.eq_of_name_eq hstep (mem_steps_update s scope).1 hname
  obtain ⟨hrequest, hresult⟩ := hvisited.eq_completed (fun _ => rfl) (fun _ _ => rfl) hsent
  obtain ⟨arn, harn, _⟩ := exists_eq_of_bind hrequest
  exact ⟨rfl, _, hresult, Option.isSome_iff_exists.mpr ⟨_, knownNamespace_eq_ok_iff.mp harn⟩⟩

/-- A policy that was attached is removed, or the walk is about to remove it. -/
def Due (desired : Cluster) (rest : List (Step Cluster)) (r : ProgressRecord Cluster)
    (past : Journal) : Prop :=
  Attaches past → Removes past ∨
    rest = Step.deleteResourcePolicy :: readBack ∧
      (knownNamespace? ⟨desired, none⟩ r).isSome = true

/-- After a visit the policy is removed, or the visit was the one that attached it. -/
theorem Due.visited {remote : Remote}
    {result : Except Defect (Except (Outcome Cluster) (ProgressRecord Cluster))} {gained : Journal}
    (harrives : (updateRun s scope remote desired none).Arrives n (step :: rest) r past)
    (hdue : Due desired (step :: rest) r past)
    (hvisited : (updateRun s scope remote desired none).Visits n step r past result gained)
    (hattaches : Attaches (past ++ gained)) :
    Removes (past ++ gained) ∨ step = Step.putResourcePolicy ∧
      ∃ r', result = .ok (.ok r') ∧ (knownNamespace? ⟨desired, none⟩ r').isSome = true := by
  obtain ⟨request, response, hsent⟩ := hattaches
  rcases List.mem_append.mp hsent with hpast | hgained
  · left
    rcases hdue ⟨request, response, hpast⟩ with hremoves | ⟨hrest, hknown⟩
    · exact hremoves.append gained
    · obtain ⟨rfl, rfl⟩ := List.cons.inj hrest
      exact removes_of_visits harrives hknown hvisited
  · right
    exact eq_completed_of_attaches harrives.mem hvisited ⟨request, response, hgained⟩

/-- Wherever an update without a previous model gets to, an attached policy is removed or about to
be removed. -/
theorem due_of_arrives (hpolicy : desired.namespaceResourcePolicy.isSome = true)
    (harrives : (updateRun s scope remote desired none).Arrives n rest r past) :
    Due desired rest r past := by
  induction harrives with
  | start => simp [Due, Attaches]
  | @passedOver n step rest r past harrives hover ih =>
    intro hattaches
    left
    rcases ih hattaches with hremoves | ⟨hrest, hknown⟩
    · exact hremoves
    · obtain ⟨rfl, rfl⟩ := List.cons.inj hrest
      have hruns := (shouldRun_deleteResourcePolicy hpolicy none r).mpr ⟨rfl, hknown⟩
      have hdone : r.isDone Step.deleteResourcePolicy.name = true := by
        by_contra hnew
        rw [Bool.not_eq_true] at hnew
        have htakes : takesUp ⟨desired, none⟩ Step.deleteResourcePolicy r = true := by
          simp [takesUp, hnew, hruns]
        cases htakes.symm.trans hover
      exact (harrives.completes_of_isDone namesApart_update keepsMarks_update rfl harrives.mem
        hdone).exists_sent
  | completed harrives _ hrun ih =>
    intro hattaches
    obtain ⟨gained, rfl, hvisited⟩ := visited_of_run hrun
    refine (Due.visited harrives ih hvisited hattaches).imp_right ?_
    rintro ⟨rfl, r', hresult, hknown⟩
    cases hresult
    obtain ⟨before, hbefore⟩ := harrives.exists_front
    obtain ⟨front, hfront⟩ := exists_split_update s scope
    obtain rfl := namesApart_update.front_eq hfront hbefore
    have hrest := List.append_cancel_left (hfront.symm.trans hbefore)
    exact ⟨(List.cons.inj hrest).2.symm, hknown⟩
  | resumed harrives _ hrun ih =>
    intro hattaches
    obtain ⟨gained, rfl, hvisited⟩ := visited_of_run hrun
    rcases Due.visited harrives ih hvisited hattaches with hremoves | ⟨_, _, hresult, _⟩
    · exact .inl hremoves
    · cases hresult

/-- An update without a previous model removes the policy in the pass in which it attaches it. -/
theorem removes_of_attaches (hpolicy : desired.namespaceResourcePolicy.isSome = true)
    {result : Except Defect (Outcome Cluster)} {journal : Journal}
    (hends : (updateRun s scope remote desired none).Ends n result journal)
    (hattaches : Attaches journal) : Removes journal := by
  cases hends with
  | finished harrives =>
    rcases due_of_arrives hpolicy harrives hattaches with hremoves | ⟨hrest, _⟩
    · exact hremoves
    · cases hrest
  | stopped harrives _ hrun =>
    obtain ⟨gained, rfl, hvisited⟩ := visited_of_run hrun
    rcases (due_of_arrives hpolicy harrives).visited harrives hvisited hattaches with
      hremoves | ⟨_, _, hresult, _⟩
    · exact hremoves
    · cases hresult
  | broke harrives _ hrun =>
    obtain ⟨gained, rfl, hvisited⟩ := visited_of_run hrun
    rcases (due_of_arrives hpolicy harrives).visited harrives hvisited hattaches with
      hremoves | ⟨_, _, hresult, _⟩
    · exact hremoves
    · cases hresult

/-- The journal attaches the policy when a call for this is accepted. -/
theorem attaches_iff (limit : Nat) :
    Attaches ((updateRun s scope remote desired previous).journal limit) ↔
      ∃ exchange ∈ ((updateRun s scope remote desired previous).journal limit).exchanges,
        isFor "PutResourcePolicy" exchange.call = true ∧ exchange.answer.isOk = true := by
  have hchain : (family s scope).chain .update =
      some (updateRun s scope remote desired previous).chain := rfl
  rw [exists_exchange_iff hchain Step.putResourcePolicy "PutResourcePolicy"
    (List.mem_of_elem_eq_true rfl) (fun request hrequest => by simp [isReading, hrequest])
    (·.isOk = true) limit]
  constructor
  · rintro ⟨request, response, hsent⟩
    exact ⟨request, .ok response, hsent, rfl⟩
  · rintro ⟨request, answer, hsent, hok⟩
    cases answer with
    | ok response => exact ⟨request, response, hsent⟩
    | error fault => cases hok

/-- The journal removes the policy when there is a call for this. -/
theorem removes_iff (limit : Nat) :
    Removes ((updateRun s scope remote desired previous).journal limit) ↔
      ∃ exchange ∈ ((updateRun s scope remote desired previous).journal limit).exchanges,
        isFor "DeleteResourcePolicy" exchange.call = true := by
  have hchain : (family s scope).chain .update =
      some (updateRun s scope remote desired previous).chain := rfl
  have hiff := exists_exchange_iff hchain Step.deleteResourcePolicy "DeleteResourcePolicy"
    (List.mem_of_elem_eq_true rfl) (fun request hrequest => by simp [isReading, hrequest])
    (fun _ => True) limit
  simp only [and_true] at hiff
  exact hiff.symm

/-- In the run of an update the policy is removed exactly when it is attached and there is no
previous model. -/
theorem removes_iff_attaches (hpolicy : desired.namespaceResourcePolicy.isSome = true)
    (limit : Nat) :
    Removes ((updateRun s scope remote desired previous).journal limit) ↔
      previous = none ∧ Attaches ((updateRun s scope remote desired previous).journal limit) := by
  constructor
  · intro hremoves
    obtain ⟨exchange, hexchange, hfor⟩ := (removes_iff limit).mp hremoves
    obtain ⟨purpose, hentry⟩ := Journal.mem_exchanges.mp hexchange
    obtain ⟨before, after, hsplit⟩ := List.append_of_mem hentry
    obtain ⟨hnone, request, response, hsent⟩ :=
      throughout_removed hpolicy limit before _ after hsplit purpose exchange rfl hfor
    exact ⟨hnone, request, response, by simp [hsplit, hsent]⟩
  · rintro ⟨rfl, hattaches⟩
    rcases Run.journal_eq_nil_or_ends (updateRun s scope remote desired none) limit with
      hnil | ⟨n, result, hends⟩
    · simp [hnil, Attaches] at hattaches
    · exact removes_of_attaches hpolicy hends hattaches

end Update

/-- A request for an update is turned away or is carried out over the chain for updates. -/
theorem chainFor_update (s : Settings) (scope : ResourceScope) {request : HandlerRequest Cluster}
    {desired : Cluster} (hupdate : request.operation = .update)
    (hdesired : request.desired = some desired) :
    (∃ refusal, (family s scope).chainFor request = .error refusal) ∨
      (family s scope).chainFor request = .ok (updateChain s scope, desired) := by
  rw [Family.chainFor, hdesired, hupdate]
  cases hrefusal : refusal .update desired with
  | some message =>
    left
    exact ⟨.invalidModel message, by simp only [family, hrefusal]; rfl⟩
  | none =>
    right
    simp only [family, hrefusal]
    rfl

/-- An update of a cluster that is asked to have a policy removes the policy exactly when the policy
is attached in it and the request has no previous model. -/
theorem policy_removed_iff (s : Settings) (scope : ResourceScope) (remote : Remote)
    {request : HandlerRequest Cluster} {desired : Cluster} (hupdate : request.operation = .update)
    (hfresh : request.progress.getD .empty = .empty) (hdesired : request.desired = some desired)
    (hpolicy : desired.namespaceResourcePolicy.isSome = true) (limit : Nat) :
    (∃ exchange ∈ ((family s scope).journal remote request limit).exchanges,
        isFor "DeleteResourcePolicy" exchange.call = true) ↔
      request.previous = none ∧
        ∃ exchange ∈ ((family s scope).journal remote request limit).exchanges,
          isFor "PutResourcePolicy" exchange.call = true ∧ exchange.answer.isOk = true := by
  have hlist : request.operation ≠ .list := by
    rw [hupdate]
    decide
  rcases chainFor_update s scope hupdate hdesired with ⟨refusal, hchain⟩ | hchain
  · simp [Family.journal_of_refused hlist hchain limit, Journal.exchanges]
  · have hrun : (family s scope).runOf remote request (updateChain s scope) desired =
        updateRun s scope remote desired request.previous := by
      rw [Family.runOf, hfresh]
      rfl
    rw [Family.journal_eq_runOf hlist hchain, hrun, ← removes_iff, ← attaches_iff]
    exact removes_iff_attaches hpolicy limit

/-- An update that asks for a policy and is not told the previous model. -/
def policyUpdate : HandlerRequest Cluster where
  operation := .update
  desired := some
    { clusterIdentifier := some "analytics"
      namespaceResourcePolicy := some (.object [("Version", .string "2012-10-17")])
      clusterNamespaceArn := some "arn:ns" }

/-- A service that carries out every request and has the cluster available. -/
def compliant : Remote := fun _ call =>
  match call with
  | .invoke _ => .ok (.object [])
  | .describe _ =>
    .ok (.object [("ClusterIdentifier", .string "analytics"), ("ClusterStatus", .string "available")])

/-- An update that is told the previous model keeps the policy that it attaches. -/
theorem policyUpdate_keeps_policy :
    (∃ exchange ∈ ((family {} {}).journal compliant
        { policyUpdate with previous := some (.named "analytics") } 2).exchanges,
      isFor "PutResourcePolicy" exchange.call = true ∧ exchange.answer.isOk = true) ∧
    ¬∃ exchange ∈ ((family {} {}).journal compliant
        { policyUpdate with previous := some (.named "analytics") } 2).exchanges,
      isFor "DeleteResourcePolicy" exchange.call = true := by
  have hput : (((family {} {}).journal compliant
      { policyUpdate with previous := some (.named "analytics") } 2).exchanges.any fun exchange =>
        isFor "PutResourcePolicy" exchange.call && exchange.answer.isOk) = true := by
    decide +kernel
  constructor
  · simpa only [List.any_eq_true, Bool.and_eq_true] using hput
  · intro hremoved
    have hnone := ((policy_removed_iff {} {} compliant (by rfl) (by rfl) (by rfl) (by rfl) 2).mp
      hremoved).1
    cases hnone

/-- An update that is not told the previous model attaches the policy that it is asked for and then
removes it. -/
theorem policyUpdate_removes_policy :
    (policyUpdate.desired.bind (·.namespaceResourcePolicy)).isSome = true ∧
      ((((family { patchMinObservations := 1 } {}).journal compliant policyUpdate 1).calls.filterMap
        fun call =>
          match call with
          | .invoke request => some request.operation
          | .describe _ => none) =
        ["ModifyCluster", "PutResourcePolicy", "DeleteResourcePolicy", "DescribeClusters",
          "DescribeLoggingStatus", "GetResourcePolicy"]) := by
  decide +kernel

end Lifecycle.Cluster
