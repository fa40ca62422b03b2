import Lifecycle.Proofs.Cluster.Gates
import Lifecycle.Proofs.Conclusions
import Lifecycle.Proofs.EndpointAccess.Steps

/-!
# Removing a resource

The chains for deletion end with a step that asks for the removal and then looks until the
service no longer knows the resource. Such a chain reports the deletion in the very pass in
which a look finds the resource gone, and at no other time (`deletion_confirmed`).
-/

namespace Lifecycle

open Json ProgressRecord Chain

variable {M : Type}

/-- Whether an exchange is a look at a resource that finds it gone. -/
def Exchange.findsGone (faults : FaultTable) (resource : String) : Exchange → Bool
  | ⟨.describe id, .error fault⟩ => id == resource && (faults.classify fault).isNotFound
  | _ => false

/-- A step that asks for the removal of a resource and waits until the resource is gone. -/
structure Step.Removes (step : Step M) (target : Target M) (operation resource : String) :
    Prop where
  /-- The step applies. -/
  applies : ∀ r, step.shouldRun target r = true
  /-- It asks for this operation. -/
  asks : ∀ r request, step.request target r = .ok request → request.operation = operation
  /-- It lives with no fault. -/
  lives : ∀ fault target, step.suppress fault target = false
  /-- It looks at the resource. -/
  looks : ∀ r, step.stabilization target r = .ok (some { probe := .describe resource })
  /-- It waits until the resource is gone. -/
  gone : ∀ observation target, step.isStable observation target = !observation.isPresent
  /-- Then the step is complete. -/
  advances : ∀ observed r, step.onComplete observed r = (.advance, r)

/-- A step that asks for something else, and looks for no effect. -/
structure Step.Spares (step : Step M) (target : Target M) (operation : String) : Prop where
  /-- It asks for another operation. -/
  asks : ∀ r request, step.request target r = .ok request → request.operation ≠ operation
  /-- It does not look. -/
  looks : ∀ r, step.stabilization target r = .ok none

namespace Chain

/-- The last one of some steps removes the resource; the others spare it. -/
inductive RemovesLast (target : Target M) (operation resource : String) (step : Step M) :
    List (Step M) → Prop
  /-- It is the only one. -/
  | last (hremoves : step.Removes target operation resource) :
      RemovesLast target operation resource step [step]
  /-- It comes later. -/
  | after {other : Step M} {rest : List (Step M)} (hspares : other.Spares target operation)
      (hrest : RemovesLast target operation resource step rest) :
      RemovesLast target operation resource step (other :: rest)

variable {faults : FaultTable} {config : ChainConfig} {remote : Remote} {target : Target M}
  {step : Step M} {r r' : ProgressRecord M} {past gained : Journal}
  {operation resource : String} {exchange : Exchange}

/-- The step that removes the resource is the last one. -/
theorem RemovesLast.exists_front {steps : List (Step M)}
    (h : RemovesLast target operation resource step steps) : ∃ front, steps = front ++ [step] := by
  induction h with
  | last => exact ⟨[], rfl⟩
  | @after other _ _ _ ih =>
    obtain ⟨front, rfl⟩ := ih
    exact ⟨other :: front, rfl⟩

/-- The last step removes the resource. -/
theorem RemovesLast.removes {steps : List (Step M)}
    (h : RemovesLast target operation resource step steps) :
    step.Removes target operation resource := by
  induction h with
  | last hremoves => exact hremoves
  | after _ _ ih => exact ih

/-- Each of the steps removes the resource or spares it. -/
theorem RemovesLast.eq_or_spares {steps : List (Step M)}
    (h : RemovesLast target operation resource step steps) :
    ∀ other ∈ steps, other = step ∨ other.Spares target operation := by
  induction h with
  | last =>
    intro other hother
    exact .inl (List.mem_singleton.mp hother)
  | after hspares _ ih =>
    rw [List.forall_mem_cons]
    exact ⟨.inr hspares, ih⟩

/-- A request finds nothing gone. -/
theorem Issued.findsGone_eq_false {result : Except Defect (Issue M)}
    (h : Issued faults config remote target step r past result gained)
    (hexchange : exchange ∈ gained.exchanges) : exchange.findsGone faults resource = false := by
  obtain ⟨purpose, hentry⟩ := Journal.mem_exchanges.mp hexchange
  obtain ⟨request, answer, _, hsent⟩ := h.calls hentry rfl
  cases hsent
  cases answer <;> rfl

/-- A request that is accepted finds nothing gone. -/
theorem Accepted.findsGone_eq_false
    (h : Accepted faults config remote target step r past r' gained)
    (hexchange : exchange ∈ gained.exchanges) : exchange.findsGone faults resource = false := by
  cases h with
  | earlier => cases hexchange
  | now _ hissued => exact hissued.findsGone_eq_false hexchange

/-- The verdict of a look that finds the resource gone is favourable to its removal. -/
theorem verdict_of_findsGone (hremoves : step.Removes target operation resource)
    {l : Stabilization}
    (hgone : Exchange.findsGone faults resource ⟨l.probe.call, remote past.exchanges l.probe.call⟩ =
      true) :
    verdict faults remote target step l past = .ok (true, none) := by
  rw [verdict]
  cases hcall : l.probe.call with
  | invoke => simp [hcall, Exchange.findsGone] at hgone
  | describe id =>
    rw [hcall] at hgone
    cases hanswer : remote past.exchanges (.describe id) with
    | ok => simp [hanswer, Exchange.findsGone] at hgone
    | error fault =>
      have hnotFound : (faults.classify fault).isNotFound = true := by
        simp only [hanswer, Exchange.findsGone, Bool.and_eq_true] at hgone
        exact hgone.2
      simp [Poll.judge, hnotFound, hremoves.gone, Observation.isPresent]

/-- A look that finds the resource gone is enough. -/
theorem Stabilized.exists_stable (hremoves : step.Removes target operation resource)
    {result : Except Defect (Except (Outcome M) (Option Value × ProgressRecord M))}
    (h : Stabilized faults config remote target step r past result gained)
    (hexchange : exchange ∈ gained.exchanges) (hgone : exchange.findsGone faults resource = true) :
    ∃ stable, result = .ok (.ok stable) := by
  have hone : ∀ {l : Stabilization} {rest : Journal}, (∀ entry ∈ rest, entry.isPause = true) →
      exchange ∈ Journal.exchanges
        (looked step l (remote past.exchanges l.probe.call) :: rest) →
      verdict faults remote target step l past = .ok (true, none) := by
    intro l rest hpauses hexchange
    obtain ⟨purpose, hentry⟩ := Journal.mem_exchanges.mp hexchange
    rcases List.mem_cons.mp hentry with heq | hrest
    · cases heq
      exact verdict_of_findsGone hremoves hgone
    · cases hpauses _ hrest
  cases h with
  | defect => cases hexchange
  | undeclared => cases hexchange
  | refused _ hverdict => cases hverdict.symm.trans (hone (List.forall_mem_nil _) hexchange)
  | stable => exact ⟨_, rfl⟩
  | @pending l _ _ _ _ hdeclared hverdict hshort hsuspended =>
    obtain ⟨rfl, rfl⟩ := Prod.mk.inj
      (Except.ok.inj (hverdict.symm.trans (hone hsuspended.isPause hexchange)))
    obtain rfl := Option.some.inj (Except.ok.inj ((hremoves.looks r).symm.trans hdeclared))
    have hcount := UInt32.lt_iff_toNat_lt.mp (hshort rfl)
    rw [counter_increment_self] at hcount
    exact absurd hcount (Nat.not_lt.mpr (nextCount_pos _))

/-- A visit in which a look finds the resource gone completes the step. -/
theorem Visited.exists_completed (hremoves : step.Removes target operation resource)
    {result : Except Defect (Except (Outcome M) (ProgressRecord M))}
    (h : Visited faults config remote target step r past result gained)
    (hexchange : exchange ∈ gained.exchanges) (hgone : exchange.findsGone faults resource = true) :
    ∃ r', result = .ok (.ok r') := by
  have hissue : ∀ {result : Except Defect (Issue M)} {j : Journal},
      Issued faults config remote target step r past result j → exchange ∉ j.exchanges := by
    intro result j hissued hmem
    cases hgone.symm.trans (hissued.findsGone_eq_false hmem)
  have hsecond : ∀ {r₁ : ProgressRecord M} {first second : Journal},
      Accepted faults config remote target step r past r₁ first →
      exchange ∈ Journal.exchanges (first ++ second) → exchange ∈ second.exchanges := by
    intro r₁ first second haccepted hmem
    rw [Journal.exchanges_append, List.mem_append] at hmem
    refine hmem.resolve_left fun hfirst => ?_
    cases hgone.symm.trans (haccepted.findsGone_eq_false hfirst)
  cases h with
  | unmade _ hissued | halted _ hissued => exact absurd hexchange (hissue hissued)
  | tolerated => exact ⟨_, rfl⟩
  | unseen haccepted hstabilized | unstable haccepted hstabilized =>
    obtain ⟨_, hstable⟩ :=
      hstabilized.exists_stable hremoves (hsecond haccepted hexchange) hgone
    cases hstable
  | shown _ _ hcompleted =>
    cases hcompleted with
    | cooling hcompletion => cases (hremoves.advances _ _).symm.trans hcompletion
    | advanced => exact ⟨_, rfl⟩

/-- A visit that completes the step ends its calls with a look that finds the resource gone. -/
theorem Visited.exists_last (hremoves : step.Removes target operation resource)
    (h : Visited faults config remote target step r past (.ok (.ok r')) gained) :
    ∃ last, gained.exchanges.getLast? = some last ∧ last.findsGone faults resource = true := by
  cases h with
  | tolerated _ hissued =>
    cases hissued with
    | tolerated _ _ hlives => cases (hremoves.lives _ _).symm.trans hlives
  | @shown r₁ _ _ _ first _ _ _ hstabilized hcompleted =>
    cases hstabilized with
    | undeclared hdeclared => cases (hremoves.looks r₁).symm.trans hdeclared
    | @stable l _ hdeclared hverdict =>
      obtain rfl := Option.some.inj (Except.ok.inj ((hremoves.looks r₁).symm.trans hdeclared))
      refine ⟨⟨.describe resource, remote (past ++ first).exchanges (.describe resource)⟩, ?_, ?_⟩
      · cases hcompleted
        simp [Journal.exchanges, looked, Probe.call]
      · rcases favourable_of_verdict hverdict with ⟨_, _, _, hstable⟩ | ⟨⟨fault, hanswer, hgone⟩, _⟩
        · cases (hremoves.gone _ _).symm.trans hstable
        · have hanswer' : remote (past ++ first).exchanges (.describe resource) = .error fault := hanswer
          rw [hanswer']
          simp [Exchange.findsGone, hgone]

/-- A visit to a step that spares the resource does not look at it. -/
theorem Visited.findsGone_eq_false (hspares : step.Spares target operation)
    {result : Except Defect (Except (Outcome M) (ProgressRecord M))}
    (h : Visited faults config remote target step r past result gained)
    (hexchange : exchange ∈ gained.exchanges) : exchange.findsGone faults resource = false := by
  obtain ⟨purpose, hentry⟩ := Journal.mem_exchanges.mp hexchange
  rcases (h.calls hentry rfl).request_or_look with ⟨_, _, hcall, _⟩ | ⟨_, _, _, _, hdeclared⟩
  · obtain ⟨call, answer⟩ := exchange
    obtain rfl : call = _ := hcall
    cases answer <;> rfl
  · cases (hspares.looks _).symm.trans hdeclared

/-- A pass in which a look finds the resource gone reports the deletion. -/
theorem Walked.eq_success {steps : List (Step M)} {result : Except Defect (Outcome M)}
    (hterminal : config.terminal = .deleted)
    (hlast : RemovesLast target operation resource step steps)
    (hwalked : Walked faults config remote target steps r past result gained)
    (hexchange : exchange ∈ gained.exchanges) (hgone : exchange.findsGone faults resource = true) :
    result = .ok (.success none) := by
  induction hlast generalizing r past gained with
  | last hremoves =>
    cases hwalked with
    | passedOver _ hrest =>
      cases hrest
      cases hexchange
    | completed _ _ hrest =>
      cases hrest
      rw [report, hterminal]
    | stopped _ hvisit | broke _ hvisit =>
      have hvisited := visited_of_run_append hvisit
      obtain ⟨_, hcompleted⟩ := hvisited.exists_completed hremoves hexchange hgone
      cases hcompleted
  | after hspares _ ih =>
    cases hwalked with
    | passedOver _ hrest => exact ih hrest hexchange
    | completed _ hvisit hrest =>
      have hvisited := visited_of_run_append hvisit
      rw [Journal.exchanges_append, List.mem_append] at hexchange
      rcases hexchange with hmem | hmem
      · cases hgone.symm.trans (hvisited.findsGone_eq_false hspares hmem)
      · exact ih hrest hmem
    | stopped _ hvisit | broke _ hvisit =>
      have hvisited := visited_of_run_append hvisit
      cases hgone.symm.trans (hvisited.findsGone_eq_false hspares hexchange)

end Chain

namespace Run

/-- A run over a chain that ends with the removal of a resource. -/
structure Removal (run : Run M) (operation resource : String) (step : Step M) : Prop where
  /-- The last step removes the resource. -/
  last : ∀ n, RemovesLast (run.targets n) operation resource step run.chain.steps
  /-- The chain reports a deletion. -/
  terminal : run.chain.config.terminal = .deleted
  /-- The names of the steps keep their marks apart. -/
  names : run.chain.NamesApart
  /-- The hooks of the steps leave the marks alone. -/
  keeps : ∀ other ∈ run.chain.steps, other.KeepsMarks
  /-- The first pass takes up no progress. -/
  start : run.start = .empty

variable {run : Run M} {operation resource : String} {step : Step M} {n : Nat}
  {steps : List (Step M)} {r : ProgressRecord M} {past gained : Journal} {model : Option M}
  (hrun : run.Removal operation resource step)
include hrun

/-- As long as a pass has steps left, the last step is not complete: a pass that completes it is the
last one. -/
theorem Removal.isDone_eq_false (harrives : run.Arrives n steps r past) (hsteps : steps ≠ []) :
    r.isDone step.name = false := by
  obtain ⟨front, hfront⟩ := (hrun.last 0).exists_front
  have hlast : step ∈ run.chain.steps := by simp [hfront]
  have hother : ∀ {n other r r' past result gained}, other ∈ run.chain.steps →
      run.Visits n other r past result gained → recordLeft? result = some r' →
      step.name ≠ other.name → r'.isDone step.name = r.isDone step.name := by
    intro n other r r' past result gained hmem hvisited hleft hname
    exact (hvisited.marks (hrun.keeps other hmem) hleft).flag_eq (hrun.names.done_ne hlast hmem hname)
  induction harrives with
  | start =>
    rw [isDone, flag_seed, hrun.start]
    rfl
  | passedOver _ _ ih => exact ih (List.cons_ne_nil _ _)
  | @completed n other rest _ _ _ _ harrives _ hvisit ih =>
    obtain ⟨gained, rfl, hvisited⟩ := visited_of_run hvisit
    have hname : step.name ≠ other.name := by
      intro heq
      obtain rfl := hrun.names.eq_of_name_eq hlast harrives.mem heq
      obtain ⟨before, hbefore⟩ := harrives.exists_front
      obtain rfl := hrun.names.front_eq hfront hbefore
      exact hsteps (List.cons.inj (List.append_cancel_left (hfront.symm.trans hbefore))).2.symm
    rw [hother harrives.mem hvisited rfl hname]
    exact ih (List.cons_ne_nil _ _)
  | @resumed n other rest _ _ _ _ _ harrives _ hvisit ih =>
    obtain ⟨gained, rfl, hvisited⟩ := visited_of_run hvisit
    rw [isDone, flag_seed, ← isDone]
    by_cases hname : step.name = other.name
    · obtain rfl := hrun.names.eq_of_name_eq hlast harrives.mem hname
      rw [hvisited.isDone_eq_of_suspended (hrun.keeps step hlast) rfl]
      exact ih (List.cons_ne_nil _ _)
    · rw [hother harrives.mem hvisited rfl hname]
      exact ih (List.cons_ne_nil _ _)

/-- A pass that succeeds reports the deletion, and its last call finds the resource gone. -/
theorem Removal.exists_last (harrives : run.Arrives n steps r past)
    (hlast : RemovesLast (run.targets n) operation resource step steps)
    (hwalked : Walked run.faults run.chain.config run.remote (run.targets n) steps r past
      (.ok (.success model)) gained) :
    model = none ∧
      ∃ last, gained.exchanges.getLast? = some last ∧ last.findsGone run.faults resource = true := by
  induction hlast generalizing r past gained with
  | last hremoves =>
    have htakes : takesUp (run.targets n) step r = true := by
      rw [takesUp, hrun.isDone_eq_false harrives (List.cons_ne_nil _ _), hremoves.applies]
      rfl
    generalize hresult : (.ok (.success model) : Except Defect (Outcome M)) = result at hwalked
    cases hwalked with
    | passedOver hover => cases htakes.symm.trans hover
    | completed _ hvisit hrest =>
      cases hrest
      rw [report, hrun.terminal] at hresult
      cases hresult
      rw [List.append_nil]
      exact ⟨rfl, (visited_of_run_append hvisit).exists_last hremoves⟩
    | stopped _ hvisit =>
      cases hresult
      exact absurd rfl ((visited_of_run_append hvisit).ne_success _)
    | broke => cases hresult
  | after _ _ ih =>
    cases hwalked with
    | passedOver hover hrest => exact ih (.passedOver harrives hover) hrest
    | completed htakes hvisit hrest =>
      obtain ⟨hmodel, last, hgained, hgone⟩ := ih (.completed harrives htakes hvisit) hrest
      exact ⟨hmodel, last, by simp [Journal.exchanges_append, hgained], hgone⟩
    | stopped _ hvisit => exact absurd rfl ((visited_of_run_append hvisit).ne_success _)

/-- The last step asks for the removal, and no other step does. -/
theorem Removal.askedBy : run.AskedBy operation step := by
  obtain ⟨front, hfront⟩ := (hrun.last 0).exists_front
  refine ⟨by simp [hfront], ?_, ?_⟩
  · intro n other hother r request hrequest
    rcases (hrun.last n).eq_or_spares other hother with rfl | hspares
    · exact iff_of_true ((hrun.last n).removes.asks r request hrequest) rfl
    · refine iff_of_false (hspares.asks r request hrequest) ?_
      rintro rfl
      exact hspares.asks r request hrequest ((hrun.last n).removes.asks r request hrequest)
  · intro n other hother r s hdeclared
    rcases (hrun.last n).eq_or_spares other hother with rfl | hspares
    · obtain rfl := Option.some.inj
        (Except.ok.inj (((hrun.last n).removes.looks r).symm.trans hdeclared))
      exact ⟨resource, rfl⟩
    · cases (hspares.looks r).symm.trans hdeclared

/-- When the run succeeds, the removal was accepted exactly once. -/
theorem Removal.countP_isAccepted {limit : Nat}
    (hends : run.Ends n (.ok (.success model)) (run.journal limit)) :
    (run.journal limit).exchanges.countP (·.isAccepted operation) = 1 :=
  hrun.askedBy.countP_isAccepted hrun.names hrun.keeps hrun.start
    (fun n _ r _ _ _ => (hrun.last n).removes.applies r) (hrun.last 0).removes.lives hends

end Run

/-- A request for the removal of a resource succeeds exactly when the removal is confirmed. -/
structure Family.ConfirmsRemoval (f : Family M) (remote : Remote) (request : HandlerRequest M)
    (limit : Nat) (operation resource : String) : Prop where
  /-- Success leaves no model. The removal was accepted once, and the last call of the pass finds
  the resource gone. -/
  confirmed : ∀ invocation ∈ f.invocations remote request limit request.progress [],
    invocation.isSuccess = true →
      invocation.response = .ok (.ofOutcome (.success none)) ∧
      (f.journal remote request limit).exchanges.countP (·.isAccepted operation) = 1 ∧
      ∃ last, invocation.journal.exchanges.getLast? = some last ∧
        last.findsGone f.faults resource = true
  /-- A pass in which a look finds the resource gone ends with success. -/
  reported : ∀ invocation ∈ f.invocations remote request limit request.progress [],
    (∃ exchange ∈ invocation.journal.exchanges, exchange.findsGone f.faults resource = true) →
      invocation.isSuccess = true

/-- A request whose runs end with the removal of a resource succeeds exactly when the removal is
confirmed. -/
theorem Family.confirmsRemoval {f : Family M} {request : HandlerRequest M} {desired : M}
    {operation resource : String} {step : Step M} (hlist : request.operation ≠ .list)
    (hdesired : request.desired = some desired) (hprogress : request.progress = none)
    (hremoval : ∀ run, f.CarriesOut request.operation ⟨desired, request.previous⟩ run →
      run.Removal operation resource step) (remote : Remote) (limit : Nat) :
    f.ConfirmsRemoval remote request limit operation resource := by
  rcases refused_or_exists_run hlist hdesired hprogress remote limit with
    hrefused | ⟨run, hrun, -, hfollows⟩
  · constructor
    · intro invocation hmem hsuccess
      obtain ⟨message, rfl⟩ := hrefused invocation hmem
      cases hsuccess
    · rintro invocation hmem ⟨exchange, hexchange, -⟩
      obtain ⟨message, rfl⟩ := hrefused invocation hmem
      cases hexchange
  · constructor
    · intro invocation hmem hsuccess
      obtain ⟨before, after, hsplit⟩ := List.append_of_mem hmem
      obtain ⟨reports, report, later, hpasses, -, rfl⟩ := hfollows.exists_report hsplit
      obtain ⟨model, hresult⟩ := exists_success_of_isSuccess hsuccess
      have hreport : report ∈ run.passes limit := by simp [hpasses]
      obtain ⟨r, harrives, hwalked⟩ := Run.walked_of_passes hpasses
      obtain ⟨n, hends⟩ := Run.ends_of_success hreport hresult
      rw [hresult] at hwalked
      obtain ⟨rfl, last, hlast, hgone⟩ := (hremoval run hrun).exists_last harrives
        ((hremoval run hrun).last _) hwalked
      rw [hrun.faults] at hgone
      rw [hfollows.journal_eq]
      exact ⟨by rw [hresult]; rfl, (hremoval run hrun).countP_isAccepted hends, last, hlast, hgone⟩
    · rintro invocation hmem ⟨exchange, hexchange, hgone⟩
      obtain ⟨before, after, hsplit⟩ := List.append_of_mem hmem
      obtain ⟨reports, report, later, hpasses, -, rfl⟩ := hfollows.exists_report hsplit
      obtain ⟨r, harrives, hwalked⟩ := Run.walked_of_passes hpasses
      rw [← hrun.faults] at hgone
      have hresult := hwalked.eq_success (hremoval run hrun).terminal ((hremoval run hrun).last _)
        hexchange hgone
      simp [Invocation.isSuccess, hresult, Except.map, HandlerResponse.ofOutcome]

/-- The runs that delete a cluster end with its removal. -/
theorem Cluster.removal {s : Settings} {scope : ResourceScope} {target : Target Cluster}
    {identifier : String} (hid : target.desired.clusterIdentifier = some identifier)
    {run : Run Cluster} (hrun : (Cluster.family s scope).CarriesOut .delete target run) :
    run.Removal "DeleteCluster" identifier (Cluster.Step.deleteCluster s.settle) := by
  have hchain : Cluster.deleteChain s = run.chain := Option.some.inj hrun.chain
  refine ⟨?_, by rw [← hchain]; rfl, Cluster.namesApart hrun.chain, Cluster.keepsMarks_run hrun,
    hrun.start⟩
  intro n
  rw [hrun.targets, ← hchain]
  refine .after ⟨?_, fun _ => rfl⟩ (.last ⟨fun _ => rfl, ?_, fun _ _ => rfl, ?_, fun _ _ => rfl,
    fun _ _ => rfl⟩)
  · intro r request hrequest
    obtain ⟨_, _, rfl⟩ := Cluster.exists_eq_of_bind hrequest
    exact show "DeleteResourcePolicy" ≠ "DeleteCluster" by decide
  · intro r request hrequest
    obtain ⟨_, _, rfl⟩ := Cluster.exists_eq_of_bind hrequest
    rfl
  · intro r
    simp only [Cluster.Step.deleteCluster, Cluster.describeProbe, Cluster.id_eq_ok hid]
    rfl

/-- The runs that delete an endpoint end with its removal. -/
theorem EndpointAccess.removal {s : Settings} {target : Target EndpointAccess} {endpoint : String}
    (hname : target.desired.endpointName = some endpoint) {run : Run EndpointAccess}
    (hrun : (EndpointAccess.family s).CarriesOut .delete target run) :
    run.Removal "DeleteEndpointAccess" endpoint EndpointAccess.Step.deleteEndpointAccess := by
  have hchain := Option.some.inj hrun.chain
  refine ⟨?_, by rw [← hchain]; rfl, EndpointAccess.namesApart hrun.chain,
    EndpointAccess.keepsMarks_run hrun, hrun.start⟩
  · intro n
    rw [hrun.targets, ← hchain]
    refine .last ⟨fun _ => rfl, ?_, fun _ _ => rfl, ?_, fun _ _ => rfl, fun _ _ => rfl⟩
    · intro r request hrequest
      simp only [EndpointAccess.Step.deleteEndpointAccess, EndpointAccess.deleteRequest,
        EndpointAccess.name_eq_ok hname] at hrequest
      obtain rfl := Except.ok.inj hrequest
      rfl
    · exact fun _ => EndpointAccess.describeProbe_eq_ok hname

/-- The deletion of a cluster or of an endpoint succeeds exactly when it is confirmed. -/
theorem deletion_confirmed (s : Settings) (scope : ResourceScope) (remote : Remote) (limit : Nat) :
    (∀ (request : HandlerRequest Cluster) (desired : Cluster) (identifier : String),
      request.operation = .delete → request.desired = some desired → request.progress = none →
      desired.clusterIdentifier = some identifier →
      (Cluster.family s scope).ConfirmsRemoval remote request limit "DeleteCluster" identifier) ∧
    ∀ (request : HandlerRequest EndpointAccess) (desired : EndpointAccess) (endpoint : String),
      request.operation = .delete → request.desired = some desired → request.progress = none →
      desired.endpointName = some endpoint →
      (EndpointAccess.family s).ConfirmsRemoval remote request limit "DeleteEndpointAccess"
        endpoint := by
  constructor
  · intro request desired identifier hdelete hdesired hprogress hid
    have hremoval : ∀ run, (Cluster.family s scope).CarriesOut request.operation
        ⟨desired, request.previous⟩ run →
        run.Removal "DeleteCluster" identifier (Cluster.Step.deleteCluster s.settle) := by
      rw [hdelete]
      exact fun run => Cluster.removal hid
    exact Family.confirmsRemoval (by simp [hdelete]) hdesired hprogress hremoval remote limit
  · intro request desired endpoint hdelete hdesired hprogress hname
    have hremoval : ∀ run, (EndpointAccess.family s).CarriesOut request.operation
        ⟨desired, request.previous⟩ run →
        run.Removal "DeleteEndpointAccess" endpoint EndpointAccess.Step.deleteEndpointAccess := by
      rw [hdelete]
      exact fun run => EndpointAccess.removal hname
    exact Family.confirmsRemoval (by simp [hdelete]) hdesired hprogress hremoval remote limit

/-- A request to delete a cluster. -/
def clusterDeletion : HandlerRequest Cluster where
  operation := .delete
  desired := some { clusterIdentifier := some "analytics" }

/-- A service in which the cluster is still there at the first look and gone at the second. -/
def slowRemoval : Remote :=
  ({ describe := [.ok (.object [("ClusterStatus", .string "deleting")]),
      .error ⟨"ClusterNotFoundFault", "no cluster", 404⟩] } : Script).remote

/-- The deletion is reported by the second pass, after one accepted removal. -/
theorem clusterDeletion_confirmed :
    ((Cluster.family {} {}).invocations slowRemoval clusterDeletion 3 none []).map (·.isSuccess) =
        [false, true] ∧
      ((Cluster.family {} {}).journal slowRemoval clusterDeletion 3).exchanges.countP
        (·.isAccepted "DeleteCluster") = 1 := by
  have hmap : ((Cluster.family {} {}).invocations slowRemoval clusterDeletion 3 none []).map
      (·.isSuccess) = [false, true] := by decide +kernel
  refine ⟨hmap, ?_⟩
  have hsome : true ∈ ((Cluster.family {} {}).invocations slowRemoval clusterDeletion 3 none []).map
      (·.isSuccess) := by simp [hmap]
  obtain ⟨invocation, hmem, hsuccess⟩ := List.mem_map.mp hsome
  have hconfirms := (deletion_confirmed {} {} slowRemoval 3).1 clusterDeletion _ "analytics" rfl rfl
    rfl rfl
  exact (hconfirms.confirmed invocation hmem hsuccess).2.1

end Lifecycle
