import Lifecycle.Proofs.Cluster.Steps
import Lifecycle.Proofs.EndpointAccess.Steps

/-!
# What ends an operation without success

A fault that will not pass ends the operation with its own kind and message, unless the
step lives with it or it tells a look that the resource is not there. An operation that
fails has met such a fault last, or has run out of delays (`passes_heed_faults`).
-/

namespace Lifecycle

open Chain

variable {M : Type}

/-- The fault that the call of an entry meets. -/
def Entry.fault? : Entry → Option Fault
  | .exchanged _ ⟨_, .error fault⟩ => some fault
  | _ => none

/-- What is no call meets no fault. -/
theorem Entry.fault?_of_isCall {entry : Entry} (h : entry.isCall = false) : entry.fault? = none := by
  cases entry with
  | exchanged => cases h
  | _ => rfl

/-- A pause meets no fault. -/
theorem Entry.fault?_of_isPause {entry : Entry} (h : entry.isPause = true) : entry.fault? = none :=
  Entry.fault?_of_isCall (Entry.isCall_of_isPause h)

/-- What a fault that will not pass makes of a pass with a given outcome: the entries after the call
that meets it. A request of a step ends the pass unless the step lives with the fault; a look for
the effect ends it unless the fault says that nothing is there. -/
def Heeds (faults : FaultTable) (target : Target M) (steps : List (Step M))
    (outcome : Option (Outcome M)) : Entry → Journal → Prop
  | .exchanged (.mutation name) ⟨call, .error fault⟩, after =>
    ∀ kind, (faults.classify fault).disposition = .terminal kind →
      ∃ step ∈ steps, step.name = name ∧
        (∃ r request, step.request target r = .ok request ∧ call = .invoke request) ∧
        if step.suppress (faults.classify fault) target then after.head? = some (.tolerated name)
        else after = [] ∧ outcome = some (.failed kind fault.message)
  | .exchanged (.observation _) ⟨_, .error fault⟩, after =>
    ∀ kind, (faults.classify fault).disposition = .terminal kind → kind ≠ .notFound →
      after = [] ∧ outcome = some (.failed kind fault.message)
  | _, _ => True

/-- An outcome reports that the effect of a step's request does not show and the schedule of looks
has no further delay. -/
def TimesOut (config : ChainConfig) (target : Target M) (step : Step M) (outcome : Outcome M) :
    Prop :=
  ∃ r l n, step.stabilization target r = .ok (some l) ∧
    (l.policy.getD config.stabilization).nextDelay n = none ∧
    outcome = notStabilized step.name (l.policy.getD config.stabilization)

/-- An outcome reports the fault that the last call of a journal meets, which is its last entry. -/
def ReportsLast (faults : FaultTable) (outcome : Outcome M) (j : Journal) : Prop :=
  ∃ before purpose call fault, j = before ++ [.exchanged purpose ⟨call, .error fault⟩] ∧
    outcome = .failed (faults.classify fault).kind fault.message

/-- Entries before the last one change nothing about it. -/
theorem ReportsLast.append {faults : FaultTable} {outcome : Outcome M} {j : Journal}
    (h : ReportsLast faults outcome j) (first : Journal) :
    ReportsLast faults outcome (first ++ j) := by
  obtain ⟨before, purpose, call, fault, rfl, houtcome⟩ := h
  exact ⟨first ++ before, purpose, call, fault, by rw [List.append_assoc], houtcome⟩

section Heeds

variable {faults : FaultTable} {target : Target M} {steps steps' : List (Step M)}
  {outcome : Option (Outcome M)} {entry : Entry} {after : Journal}

/-- Nothing is asked of what comes after an entry that meets no fault. -/
theorem heeds_of_fault?_eq_none (h : entry.fault? = none) :
    Heeds faults target steps outcome entry after := by
  rcases entry with ⟨purpose, call, fault | state⟩ | _ | _ | _ | _
  · cases h
  · cases purpose <;> trivial
  all_goals trivial

/-- With more steps there is more to live with. -/
theorem Heeds.mono (hsub : steps ⊆ steps') (h : Heeds faults target steps outcome entry after) :
    Heeds faults target steps' outcome entry after := by
  rcases entry with ⟨name | _ | _, call, fault | _⟩ | _ | _ | _ | _
  case exchanged.mutation.error =>
    intro kind hterminal
    obtain ⟨step, hstep, hlives⟩ := h kind hterminal
    exact ⟨step, hsub hstep, hlives⟩
  all_goals exact h

/-- What ends no pass is in keeping with all that comes later. -/
theorem Heeds.append (h : Heeds faults target steps none entry after)
    (outcome : Option (Outcome M)) (rest : Journal) :
    Heeds faults target steps outcome entry (after ++ rest) := by
  rcases entry with ⟨name | _ | _, call, fault | _⟩ | _ | _ | _ | _
  case exchanged.mutation.error =>
    intro kind hterminal
    obtain ⟨step, hstep, hname, hrequest, hlives⟩ := h kind hterminal
    refine ⟨step, hstep, hname, hrequest, ?_⟩
    split at hlives
    · next hsuppress =>
      rw [if_pos hsuppress, List.head?_append, hlives, Option.some_or]
    · cases hlives.2
  case exchanged.observation.error =>
    intro kind hterminal hother
    cases (h kind hterminal hother).2
  all_goals trivial

end Heeds

namespace Chain

variable {faults : FaultTable} {config : ChainConfig} {remote : Remote} {target : Target M}
  {step : Step M} {r r' : ProgressRecord M} {past gained : Journal}

/-- A fault that will not pass ends a look for the effect, unless it says that nothing is there. -/
theorem verdict_of_terminal {l : Stabilization} {fault : Fault} {kind : FailureKind}
    (hanswer : remote past.exchanges l.probe.call = .error fault)
    (hterminal : (faults.classify fault).disposition = .terminal kind) (hother : kind ≠ .notFound) :
    verdict faults remote target step l past = .error (faults.classify fault) := by
  have hthere : (faults.classify fault).isNotFound = false := by
    simpa [ClassifiedFault.isNotFound, hterminal] using hother
  simp [verdict, hanswer, Poll.judge, hthere, ClassifiedFault.isRetryable_of_terminal hterminal]

/-- A fault that ends a look for the effect will not pass. -/
theorem exists_fault_of_verdict {l : Stabilization} {classified : ClassifiedFault}
    (h : verdict faults remote target step l past = .error classified) :
    ∃ fault, remote past.exchanges l.probe.call = .error fault ∧
      faults.classify fault = classified := by
  rw [verdict] at h
  cases hanswer : remote past.exchanges l.probe.call with
  | ok state =>
    rw [hanswer] at h
    cases h
  | error fault =>
    rw [hanswer, Session.mapError_classify_error, Poll.judge] at h
    refine ⟨fault, rfl, ?_⟩
    split at h
    · cases h
    · split at h
      · cases h
      · exact Except.error.inj h

section Heeds

variable {outcome : Option (Outcome M)}

/-- Pauses before a call change nothing about what comes after it. -/
theorem onward_settling {steps : List (Step M)} :
    (settling step r ++ gained).Onward (Heeds faults target steps outcome) ↔
      gained.Onward (Heeds faults target steps outcome) := by
  rw [Journal.onward_append, and_iff_right]
  exact Journal.onward_of_forall fun _ hwait _ =>
    heeds_of_fault?_eq_none (Entry.fault?_of_isPause (isPause_of_mem_settling hwait))

/-- The faults that a request meets are heeded. -/
theorem Issued.heeds {result : Except Defect (Issue M)}
    (h : Issued faults config remote target step r past result gained)
    (houtcome : ∀ o, result = .ok (.halted o) → outcome = some o) :
    gained.Onward (Heeds faults target [step] outcome) := by
  have hpauses : ∀ {j : Journal}, (∀ entry ∈ j, entry.isPause = true) →
      j.Onward (Heeds faults target [step] outcome) := fun hj =>
    Journal.onward_of_forall fun entry hentry _ =>
      heeds_of_fault?_eq_none (Entry.fault?_of_isPause (hj entry hentry))
  cases h with
  | defect => exact hpauses fun _ => isPause_of_mem_settling
  | accepted =>
    rw [onward_settling, Journal.onward_cons]
    exact ⟨heeds_of_fault?_eq_none rfl, Journal.onward_nil⟩
  | tolerated hrequest _ hsuppress =>
    rw [onward_settling, Journal.onward_cons, Journal.onward_cons]
    refine ⟨?_, heeds_of_fault?_eq_none rfl, Journal.onward_nil⟩
    intro kind _
    refine ⟨step, List.mem_singleton_self step, rfl, ⟨r, _, hrequest, rfl⟩, ?_⟩
    rw [if_pos hsuppress]
    rfl
  | retried _ _ _ hretryable hsuspended =>
    rw [onward_settling, Journal.onward_cons]
    refine ⟨?_, hpauses hsuspended.isPause⟩
    intro kind hterminal
    cases hretryable.symm.trans (ClassifiedFault.isRetryable_of_terminal hterminal)
  | refused hrequest _ hsuppress =>
    rw [onward_settling, Journal.onward_cons]
    refine ⟨?_, Journal.onward_nil⟩
    intro kind hterminal
    refine ⟨step, List.mem_singleton_self step, rfl, ⟨r, _, hrequest, rfl⟩, ?_⟩
    rw [hsuppress, if_neg Bool.false_ne_true, houtcome _ rfl, Outcome.ofFault,
      ClassifiedFault.kind_of_terminal hterminal]
    exact ⟨rfl, rfl⟩

/-- The faults that a look for the effect meets are heeded. -/
theorem Stabilized.heeds
    {result : Except Defect (Except (Outcome M) (Option Json.Value × ProgressRecord M))}
    (h : Stabilized faults config remote target step r past result gained)
    (houtcome : ∀ o, result = .ok (.error o) → outcome = some o) :
    gained.Onward (Heeds faults target [step] outcome) := by
  -- Only a look that is refused meets a fault that will not pass and does not say "not there".
  have hlooked : ∀ {l : Stabilization} {verdict'} {j : Journal},
      verdict faults remote target step l past = .ok verdict' →
      Heeds faults target [step] outcome (looked step l (remote past.exchanges l.probe.call)) j := by
    intro l verdict' j hverdict
    cases hanswer : remote past.exchanges l.probe.call with
    | ok state => exact heeds_of_fault?_eq_none rfl
    | error fault =>
      intro kind hterminal hother
      cases hverdict.symm.trans (verdict_of_terminal hanswer hterminal hother)
  cases h with
  | defect => exact Journal.onward_nil
  | undeclared => exact Journal.onward_nil
  | refused _ hverdict =>
    obtain ⟨fault, hanswer, rfl⟩ := exists_fault_of_verdict hverdict
    rw [Journal.onward_cons, hanswer]
    refine ⟨?_, Journal.onward_nil⟩
    intro kind hterminal _
    rw [houtcome _ rfl, Outcome.ofFault, ClassifiedFault.kind_of_terminal hterminal]
    exact ⟨rfl, rfl⟩
  | stable _ hverdict =>
    rw [Journal.onward_cons]
    exact ⟨hlooked hverdict, Journal.onward_nil⟩
  | pending _ hverdict _ hsuspended =>
    rw [Journal.onward_cons]
    refine ⟨hlooked hverdict, Journal.onward_of_forall fun entry hentry _ => ?_⟩
    exact heeds_of_fault?_eq_none (Entry.fault?_of_isPause (hsuspended.isPause entry hentry))

/-- A request that is accepted meets no fault. -/
theorem Accepted.fault?_eq_none (h : Accepted faults config remote target step r past r' gained) :
    ∀ entry ∈ gained, entry.fault? = none := by
  intro entry hentry
  cases h with
  | earlier => cases hentry
  | now _ hissued =>
    cases hissued with
    | accepted =>
      rcases List.mem_append.mp hentry with hwait | hsent
      · exact Entry.fault?_of_isPause (isPause_of_mem_settling hwait)
      · obtain rfl := List.mem_singleton.mp hsent
        rfl

/-- The faults that a visit meets are heeded. -/
theorem Visited.heeds {result : Except Defect (Except (Outcome M) (ProgressRecord M))}
    (h : Visited faults config remote target step r past result gained)
    (houtcome : ∀ o, result = .ok (.error o) → outcome = some o) :
    gained.Onward (Heeds faults target [step] outcome) := by
  have hquiet : ∀ {j : Journal} {f : Journal → Journal}, (∀ entry ∈ j, entry.fault? = none) →
      j.Onward fun entry after => Heeds faults target [step] outcome entry (f after) := fun hj =>
    Journal.onward_of_forall fun entry hentry _ => heeds_of_fault?_eq_none (hj entry hentry)
  cases h with
  | unmade _ hissued => exact hissued.heeds nofun
  | halted _ hissued => exact hissued.heeds fun _ hhalted => houtcome _ (by cases hhalted; rfl)
  | tolerated _ hissued => exact hissued.heeds nofun
  | unseen haccepted hstabilized =>
    rw [Journal.onward_append]
    exact ⟨hquiet haccepted.fault?_eq_none, hstabilized.heeds nofun⟩
  | unstable haccepted hstabilized =>
    rw [Journal.onward_append]
    exact ⟨hquiet haccepted.fault?_eq_none,
      hstabilized.heeds fun _ hended => houtcome _ (by cases hended; rfl)⟩
  | shown haccepted hstabilized hcompleted =>
    rw [List.append_assoc, Journal.onward_append, Journal.onward_append]
    have hlook : Journal.Onward (Heeds faults target [step] none) _ := hstabilized.heeds nofun
    exact ⟨hquiet haccepted.fault?_eq_none, hlook.imp fun _ _ _ hheeds => hheeds.append outcome _,
      hquiet fun _ hentry => Entry.fault?_of_isCall (hcompleted.calls hentry)⟩

end Heeds

/-- Suspending fails only when the schedule has no further delay. -/
theorem Suspended.eq_of_failed {cause : SuspensionCause} {policy : BackoffPolicy} {counter : String}
    {exhausted : Outcome M} {kind : FailureKind} {message : String}
    (h : Suspended step cause policy counter r exhausted (.failed kind message) gained) :
    policy.nextDelay (r.counter counter).toNat = none ∧ exhausted = .failed kind message ∧
      gained = [] := by
  cases h with
  | spent hspent => exact ⟨hspent, rfl, rfl⟩

/-- A request that ends the operation reports the fault that it meets. -/
theorem Issued.reportsLast {kind : FailureKind} {message : String}
    (h : Issued faults config remote target step r past (.ok (.halted (.failed kind message)))
      gained) : ReportsLast faults (.failed kind message : Outcome M) gained := by
  generalize houtcome : (.failed kind message : Outcome M) = outcome at h ⊢
  cases h with
  | retried _ _ _ hretryable hsuspended =>
    subst houtcome
    obtain ⟨-, hexhausted, rfl⟩ := hsuspended.eq_of_failed
    refine ⟨_, _, _, _, rfl, ?_⟩
    rw [← hexhausted, ClassifiedFault.kind_of_isRetryable hretryable]
  | refused => exact ⟨_, _, _, _, rfl, rfl⟩

/-- A look that ends the operation reports the fault that it meets, or that time is out. -/
theorem Stabilized.timesOut_or_reportsLast {kind : FailureKind} {message : String}
    (h : Stabilized faults config remote target step r past
      (.ok (.error (.failed kind message))) gained) :
    TimesOut config target step (.failed kind message) ∨
      ReportsLast faults (.failed kind message : Outcome M) gained := by
  generalize houtcome : (.failed kind message : Outcome M) = outcome at h ⊢
  cases h with
  | refused _ hverdict =>
    right
    obtain ⟨fault, hanswer, rfl⟩ := exists_fault_of_verdict hverdict
    exact ⟨[], _, _, fault, by rw [hanswer]; rfl, rfl⟩
  | pending hdeclared _ _ hsuspended =>
    left
    subst houtcome
    obtain ⟨hspent, hexhausted, -⟩ := hsuspended.eq_of_failed
    exact ⟨_, _, _, hdeclared, hspent, hexhausted.symm⟩

/-- A visit fails with the fault that it meets last, or because time is out. -/
theorem Visited.timesOut_or_reportsLast {kind : FailureKind} {message : String}
    (h : Visited faults config remote target step r past (.ok (.error (.failed kind message)))
      gained) :
    TimesOut config target step (.failed kind message) ∨
      ReportsLast faults (.failed kind message : Outcome M) gained := by
  cases h with
  | halted _ hissued => exact .inr hissued.reportsLast
  | unstable _ hstabilized =>
    exact hstabilized.timesOut_or_reportsLast.imp_right fun hreports => hreports.append _
  | shown _ _ hcompleted => cases hcompleted

/-- The faults that a walk meets are heeded. -/
theorem Walked.heeds {steps : List (Step M)} {result : Except Defect (Outcome M)}
    (h : Walked faults config remote target steps r past result gained) :
    gained.Onward (Heeds faults target steps result.toOption) := by
  have hown : ∀ {step : Step M} {rest : List (Step M)}, [step] ⊆ step :: rest := fun {_ _} =>
    List.cons_subset_cons _ (List.nil_subset _)
  induction h with
  | finished => exact Journal.onward_nil
  | passedOver _ _ ih => exact ih.imp fun _ _ _ hheeds => hheeds.mono (List.subset_cons_self _ _)
  | completed _ hvisit _ ih =>
    have hvisited := visited_of_run_append hvisit
    rw [Journal.onward_append]
    -- A visit that completes its step has met no fault that ends the pass.
    have hheeds : Journal.Onward (Heeds faults target [_] none) _ := hvisited.heeds nofun
    exact ⟨hheeds.imp fun _ _ _ hheeds => (hheeds.append _ _).mono hown,
      ih.imp fun _ _ _ hheeds => hheeds.mono (List.subset_cons_self _ _)⟩
  | stopped _ hvisit =>
    have hvisited := visited_of_run_append hvisit
    have hheeds := hvisited.heeds fun _ hended => congrArg some (Except.error.inj (Except.ok.inj hended))
    exact hheeds.imp fun _ _ _ hheeds => hheeds.mono hown
  | broke _ hvisit =>
    have hvisited := visited_of_run_append hvisit
    have hheeds : Journal.Onward (Heeds faults target [_] none) _ := hvisited.heeds nofun
    exact hheeds.imp fun _ _ _ hheeds => hheeds.mono hown

/-- A walk fails with the fault that it meets last, or because time is out at one of its steps. -/
theorem Walked.timesOut_or_reportsLast {steps : List (Step M)} {kind : FailureKind}
    {message : String}
    (h : Walked faults config remote target steps r past (.ok (.failed kind message)) gained) :
    (∃ step ∈ steps, TimesOut config target step (.failed kind message)) ∨
      ReportsLast faults (.failed kind message : Outcome M) gained := by
  generalize hresult : (.ok (.failed kind message) : Except Defect (Outcome M)) = result at h
  induction h with
  | finished =>
    rw [report] at hresult
    split at hresult <;> cases hresult
  | passedOver _ _ ih =>
    refine (ih hresult).imp_left ?_
    rintro ⟨step, hstep, htimesOut⟩
    exact ⟨step, List.mem_cons_of_mem _ hstep, htimesOut⟩
  | completed _ _ _ ih =>
    refine (ih hresult).imp ?_ fun hreports => hreports.append _
    rintro ⟨step, hstep, htimesOut⟩
    exact ⟨step, List.mem_cons_of_mem _ hstep, htimesOut⟩
  | stopped _ hvisit =>
    obtain rfl := Except.ok.inj hresult
    have hvisited := visited_of_run_append hvisit
    exact hvisited.timesOut_or_reportsLast.imp_left fun htimesOut =>
      ⟨_, List.mem_cons_self, htimesOut⟩
  | broke => cases hresult

end Chain

/-- In every pass of every chain, a call that meets a fault which will not pass is the last entry of
the pass, and the operation fails with the kind and the message of the fault; unless it is a request
of a step that lives with the fault, or a look that is told that nothing is there. An operation that
fails has met a fault in its last entry, whose kind and message it reports, or time is out at one of
its steps. The cluster family lives with three faults, the endpoint family with none. -/
theorem passes_heed_faults :
    (∀ {M : Type} (c : Chain M) (faults : FaultTable) (target : Target M) (remote : Remote)
      (r : ProgressRecord M) (past journal : Journal) (result : Except Defect (Outcome M)),
      (c.pass faults target r).run remote past = (result, journal) →
      ∃ gained, journal = past ++ gained ∧
        gained.Onward (Heeds faults target c.steps result.toOption) ∧
        ∀ kind message, result = .ok (.failed kind message) →
          (∃ step ∈ c.steps, TimesOut c.config target step (.failed kind message)) ∨
            ReportsLast faults (.failed kind message : Outcome M) gained) ∧
    (∀ s scope operation chain, (Cluster.family s scope).chain operation = some chain →
      ∀ step ∈ chain.steps, ∀ fault target,
        step.suppress fault target = true ↔ Cluster.Tolerates target fault step.name) ∧
    ∀ s operation chain, (EndpointAccess.family s).chain operation = some chain →
      ∀ step ∈ chain.steps, ∀ fault target, step.suppress fault target = false := by
  refine ⟨?_, ?_, ?_⟩
  · intro M c faults target remote r past journal result hpass
    obtain ⟨gained, hjournal, hwalked⟩ := exists_walked_of_pass faults remote target hpass
    refine ⟨gained, hjournal, hwalked.heeds, ?_⟩
    rintro kind message rfl
    exact hwalked.timesOut_or_reportsLast
  · intro s scope operation chain hchain step hstep
    exact Cluster.suppress_iff step (Cluster.mem_steps_of_chain hchain hstep)
  · intro s operation chain hchain step hstep
    exact EndpointAccess.suppress_eq_false step (EndpointAccess.mem_steps_of_chain hchain hstep)

/-- A cluster with a policy that is to go. -/
def policedCluster : Target Cluster where
  desired :=
    { clusterIdentifier := some "analytics"
      namespaceResourcePolicy := some .null
      clusterNamespaceArn := some "arn:ns" }

/-- A service in which the policy is gone already and the cluster is busy. -/
def busyService : Remote :=
  ({ invoke := [("DeleteResourcePolicy", [.error ⟨"ResourceNotFoundFault", "no policy", 404⟩]),
      ("DeleteCluster", [.error ⟨"InvalidClusterStateFault", "busy", 400⟩])] } : Script).remote

/-- The pass that is to delete the cluster there. -/
def busyDeletion : Except Defect (Outcome Cluster) × Journal :=
  ((Cluster.deleteChain {}).pass Cluster.faults policedCluster .empty).run busyService []

/-- The first fault is lived with, the second one is reported. -/
theorem busyDeletion_heeds_faults :
    busyDeletion.1 = .ok (.failed .invalidRequest "busy") ∧
      ReportsLast Cluster.faults (.failed .invalidRequest "busy" : Outcome Cluster) busyDeletion.2 := by
  have hresult : busyDeletion.1 = .ok (.failed .invalidRequest "busy") := by rfl
  refine ⟨hresult, ?_⟩
  obtain ⟨gained, hjournal, -, hfailed⟩ := passes_heed_faults.1 (Cluster.deleteChain {})
    Cluster.faults policedCluster busyService .empty [] busyDeletion.2 busyDeletion.1 rfl
  rw [List.nil_append] at hjournal
  rw [hjournal]
  refine (hfailed _ _ hresult).resolve_left ?_
  rintro ⟨_, _, _, _, _, _, _, hnotStabilized⟩
  cases hnotStabilized

end Lifecycle
