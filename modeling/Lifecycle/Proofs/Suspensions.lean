import Lifecycle.Proofs.Run
import Mathlib.Algebra.Ring.Nat

/-!
# What a suspended pass hands out

A pass that suspends the operation hands out the delay of its outcome, and notes in its journal
at which step and why. It notes nothing else of the kind, the note has the delay of the outcome,
and what the pass did last bears the note out (`Walked.exists_heldUp`). So the delays that a run
hands out at a step for a cause are those of the outcomes of its passes (`handedOut`), wherever
the run gets to (`Run.Arrives.delays_eq`).
-/

namespace Lifecycle

open Json ProgressRecord

variable {M : Type}

/-- The suspension that an entry tells of: at which step, why, and for how long. -/
def Entry.suspension? : Entry → Option (String × SuspensionCause × UInt64)
  | .suspended step cause delay => some (step, cause, delay)
  | _ => none

namespace Journal

/-- The suspensions of a journal, oldest first. -/
def suspensions (j : Journal) : List (String × SuspensionCause × UInt64) :=
  j.filterMap Entry.suspension?

theorem suspensions_append (past gained : Journal) :
    suspensions (past ++ gained) = suspensions past ++ suspensions gained :=
  List.filterMap_append

/-- Whether a journal tells of a suspension at a step for a cause. -/
def suspends (name : String) (cause : SuspensionCause) (j : Journal) : Bool :=
  j.suspensions.any fun (step, other, _) => step = name && other = cause

/-- The seconds that a journal hands out at a step for a cause. -/
def delays (name : String) (cause : SuspensionCause) (j : Journal) : Nat :=
  (j.suspensions.map fun (step, other, delay) =>
    if step = name ∧ other = cause then delay.toNat else 0).sum

variable {name step : String} {cause other : SuspensionCause}

@[simp] theorem delays_nil : delays name cause [] = 0 := rfl

@[simp] theorem delays_append (past gained : Journal) :
    delays name cause (past ++ gained) = delays name cause past + delays name cause gained := by
  simp only [delays, suspensions_append, List.map_append, List.sum_append]

@[simp] theorem delays_suspended (delay : UInt64) (j : Journal) :
    delays name cause (.suspended step other delay :: j) =
      (if step = name ∧ other = cause then delay.toNat else 0) + delays name cause j := rfl

@[simp] theorem delays_tolerated (j : Journal) :
    delays name cause (.tolerated step :: j) = delays name cause j := rfl

@[simp] theorem delays_completed (j : Journal) :
    delays name cause (.completed step :: j) = delays name cause j := rfl

/-- A journal without suspensions hands out nothing. -/
theorem delays_of_suspensions_eq_nil {j : Journal} (h : j.suspensions = []) :
    delays name cause j = 0 := by
  rw [delays, h]
  rfl

/-- A journal with one suspension hands out its delay. -/
theorem delays_of_suspensions_eq {j : Journal} {delay : UInt64}
    (h : j.suspensions = [(step, other, delay)]) :
    delays name cause j = if j.suspends name cause then delay.toNat else 0 := by
  simp [delays, suspends, h]

end Journal

namespace Chain

section Visits

variable {faults : FaultTable} {config : ChainConfig} {remote : Remote} {target : Target M}
  {step : Step M} {r r' : ProgressRecord M} {past gained : Journal} {delay : UInt64}

/-- The wait in place suspends nothing. -/
theorem suspensions_settling : (settling step r).suspensions = [] := by
  unfold settling
  cases step.settle r <;> rfl

theorem suspensions_settling_append (rest : Journal) :
    (settling step r ++ rest).suspensions = rest.suspensions := by
  rw [Journal.suspensions_append, suspensions_settling, List.nil_append]

/-- A suspension that comes about has a delay of its schedule and raises its counter. -/
theorem Suspended.eq_postponed {cause : SuspensionCause} {policy : BackoffPolicy} {counter : String}
    {exhausted : Outcome M}
    (h : Suspended step cause policy counter r exhausted (.inProgress delay r') gained)
    (hexhausted : exhausted.progress? = none) :
    policy.nextDelay (r.counter counter).toNat = some delay ∧ r' = r.increment counter ∧
      gained = [.suspended step.name cause delay] := by
  cases h with
  | postponed hdelay => exact ⟨hdelay, rfl, rfl⟩
  | spent => cases hexhausted

/-- No suspension is noted unless the outcome has a delay. -/
theorem Suspended.suspensions {cause : SuspensionCause} {policy : BackoffPolicy} {counter : String}
    {exhausted outcome : Outcome M}
    (h : Suspended step cause policy counter r exhausted outcome gained)
    (hover : ∀ delay r', outcome ≠ .inProgress delay r') : gained.suspensions = [] := by
  cases h with
  | postponed => exact absurd rfl (hover _ _)
  | spent => rfl

/-- An accepted request suspends nothing. -/
theorem Accepted.suspensions (h : Accepted faults config remote target step r past r' gained) :
    gained.suspensions = [] := by
  cases h with
  | earlier => rfl
  | now _ hissued =>
    cases hissued with
    | accepted => exact suspensions_settling_append _

/-- An effect that shows suspends nothing. -/
theorem Stabilized.suspensions {observed : Option Value}
    (h : Stabilized faults config remote target step r past (.ok (.ok (observed, r'))) gained) :
    gained.suspensions = [] := by
  cases h with
  | undeclared => rfl
  | stable => rfl

/-- A visit that does not suspend the operation notes no suspension. -/
theorem Visited.suspensions {result : Except Defect (Except (Outcome M) (ProgressRecord M))}
    (h : Visited faults config remote target step r past result gained)
    (hover : ∀ delay r', result ≠ .ok (.error (.inProgress delay r'))) :
    gained.suspensions = [] := by
  cases h with
  | unmade _ hissued =>
    cases hissued with
    | defect => exact suspensions_settling
  | halted _ hissued =>
    cases hissued with
    | retried _ _ _ _ hsuspended =>
      rw [suspensions_settling_append]
      exact hsuspended.suspensions fun delay r' heq => hover delay r' (by rw [heq])
    | refused => exact suspensions_settling_append _
  | tolerated _ hissued =>
    cases hissued with
    | tolerated => exact suspensions_settling_append _
  | unseen haccepted hstabilized =>
    rw [Journal.suspensions_append, haccepted.suspensions]
    cases hstabilized
    rfl
  | unstable haccepted hstabilized =>
    rw [Journal.suspensions_append, haccepted.suspensions]
    cases hstabilized with
    | refused => rfl
    | pending _ _ _ hsuspended =>
      exact hsuspended.suspensions fun delay r' heq => hover delay r' (by rw [heq])
  | shown haccepted hstabilized hcompleted =>
    rw [Journal.suspensions_append, Journal.suspensions_append, haccepted.suspensions,
      hstabilized.suspensions]
    cases hcompleted with
    | cooling => exact absurd rfl (hover _ _)
    | advanced => rfl

/-- A visit after which the walk goes on notes no suspension. -/
theorem Visited.suspensions_of_onward
    (h : Visited faults config remote target step r past (.ok (.ok r')) gained) :
    gained.suspensions = [] :=
  h.suspensions (by rintro _ _ ⟨⟩)

end Visits

section Walks

variable (faults : FaultTable) (remote : Remote) (target : Target M)

/-- What a pass that goes on from a journal did last when it is suspended at a step for a delay, by
the cause that it notes. It notes no other suspension. -/
inductive HeldUp (past : Journal) (step : Step M) (delay : UInt64) :
    SuspensionCause → Journal → Prop
  /-- The request met a fault that may pass, and that the step does not live with. -/
  | retry {front : Journal} {request : RemoteRequest} {fault : Fault}
      (hsole : front.suspensions = [])
      (hanswer : remote (past ++ front).exchanges (.invoke request) = .error fault)
      (hsuppress : step.suppress (faults.classify fault) target = false)
      (hretryable : (faults.classify fault).isRetryable = true) :
      HeldUp past step delay .retry
        (front ++ [sent step request (.error fault), .suspended step.name .retry delay])
  /-- A look for the effect was judged. The verdict was unfavourable, or one favourable verdict is
  not what the step asks for. -/
  | pending {front : Journal} {r : ProgressRecord M} {s : Stabilization} {favourable : Bool}
      {observed : Option Value} (hsole : front.suspensions = [])
      (hdeclared : step.stabilization target r = .ok (some s))
      (hverdict : verdict faults remote target step s (past ++ front) = .ok (favourable, observed))
      (hshort : favourable = true → 1 < s.minObservations) :
      HeldUp past step delay .pending
        (front ++ [looked step s (remote (past ++ front).exchanges s.probe.call),
          .suspended step.name .pending delay])
  /-- The step asked for a cool-down when it was to be completed. -/
  | coolDown {front : Journal} {observed : Option Value} {r : ProgressRecord M}
      (hsole : front.suspensions = [])
      (hcompletion : (step.onComplete observed r).1 = .coolDown delay) :
      HeldUp past step delay .coolDown (front ++ [.suspended step.name .coolDown delay])

variable {faults remote target} {config : ChainConfig} {step : Step M} {steps : List (Step M)}
  {r r' : ProgressRecord M} {past first gained : Journal} {cause : SuspensionCause}
  {delay : UInt64}

/-- The one suspension that is noted. -/
theorem HeldUp.suspensions (h : HeldUp faults remote target past step delay cause gained) :
    gained.suspensions = [(step.name, cause, delay)] := by
  cases h with
  | retry hsole | pending hsole | coolDown hsole =>
    rw [Journal.suspensions_append, hsole]
    rfl

/-- What a pass did before, without a suspension, does not change what it did last. -/
theorem HeldUp.prepend (h : HeldUp faults remote target (past ++ first) step delay cause gained)
    (hfirst : first.suspensions = []) :
    HeldUp faults remote target past step delay cause (first ++ gained) := by
  have hsole : ∀ {front : Journal}, front.suspensions = [] → (first ++ front).suspensions = [] := by
    intro front hfront
    rw [Journal.suspensions_append, hfirst, hfront, List.nil_append]
  cases h with
  | retry hfront hanswer hsuppress hretryable =>
    rw [List.append_assoc] at hanswer
    rw [← List.append_assoc]
    exact .retry (hsole hfront) hanswer hsuppress hretryable
  | pending hfront hdeclared hverdict hshort =>
    rw [List.append_assoc] at hverdict ⊢
    rw [← List.append_assoc]
    exact .pending (hsole hfront) hdeclared hverdict hshort
  | coolDown hfront hcompletion =>
    rw [← List.append_assoc]
    exact .coolDown (hsole hfront) hcompletion

/-- A visit that suspends the operation does so for a cause, and for the delay of its outcome. -/
theorem Visited.exists_heldUp
    (h : Visited faults config remote target step r past (.ok (.error (.inProgress delay r')))
      gained) : ∃ cause, HeldUp faults remote target past step delay cause gained := by
  cases h with
  | halted _ hissued =>
    cases hissued with
    | @retried request fault _ _ _ hanswer hsuppress hretryable hsuspended =>
      obtain ⟨-, -, rfl⟩ := hsuspended.eq_postponed rfl
      rw [← exchanges_settling step past r] at hanswer
      exact ⟨.retry, .retry suspensions_settling hanswer hsuppress hretryable⟩
  | unstable haccepted hstabilized =>
    cases hstabilized with
    | @pending s favourable _ _ _ hdeclared hverdict hshort hsuspended =>
      obtain ⟨-, -, rfl⟩ := hsuspended.eq_postponed rfl
      refine ⟨.pending, .pending haccepted.suspensions hdeclared hverdict ?_⟩
      exact fun hfavourable => one_lt_of_short (hshort hfavourable)
  | shown haccepted hstabilized hcompleted =>
    cases hcompleted with
    | cooling hcompletion =>
      refine ⟨.coolDown, .coolDown ?_ (congrArg Prod.fst hcompletion)⟩
      rw [Journal.suspensions_append, haccepted.suspensions, hstabilized.suspensions,
        List.nil_append]

/-- A walk that suspends the operation does so at one of its steps, for the delay of its outcome. -/
theorem Walked.exists_heldUp
    (h : Walked faults config remote target steps r past (.ok (.inProgress delay r')) gained) :
    ∃ step ∈ steps, ∃ cause, HeldUp faults remote target past step delay cause gained := by
  generalize hresult : (.ok (.inProgress delay r') : Except Defect (Outcome M)) = result at h
  induction h with
  | finished =>
    rw [report] at hresult
    cases hterminal : config.terminal <;> simp [hterminal] at hresult
  | passedOver _ _ ih =>
    obtain ⟨step, hstep, hheld⟩ := ih hresult
    exact ⟨step, List.mem_cons_of_mem _ hstep, hheld⟩
  | completed _ hvisit _ ih =>
    obtain ⟨step, hstep, cause, hheld⟩ := ih hresult
    have hfirst := (visited_of_run_append hvisit).suspensions_of_onward
    exact ⟨step, List.mem_cons_of_mem _ hstep, cause, hheld.prepend hfirst⟩
  | stopped _ hvisit =>
    obtain rfl := Except.ok.inj hresult
    exact ⟨_, List.mem_cons_self, (visited_of_run_append hvisit).exists_heldUp⟩
  | broke => cases hresult

/-- A walk that does not suspend the operation notes no suspension. -/
theorem Walked.suspensions {result : Except Defect (Outcome M)}
    (h : Walked faults config remote target steps r past result gained)
    (hover : ∀ delay r', result ≠ .ok (.inProgress delay r')) : gained.suspensions = [] := by
  induction h with
  | finished => rfl
  | passedOver _ _ ih => exact ih hover
  | completed _ hvisit _ ih =>
    rw [Journal.suspensions_append, ih hover,
      (visited_of_run_append hvisit).suspensions_of_onward]
    rfl
  | stopped _ hvisit =>
    refine (visited_of_run_append hvisit).suspensions fun delay r' heq => hover delay r' ?_
    rw [Except.error.inj (Except.ok.inj heq)]
  | broke _ hvisit => exact (visited_of_run_append hvisit).suspensions (by rintro _ _ ⟨⟩)

end Walks

/-- The seconds that a pass hands out at a step for a cause: the delay of its outcome, when the pass
notes that it is suspended there and for that. -/
def PassReport.handsOut (name : String) (cause : SuspensionCause) (report : PassReport M) : Nat :=
  match report.result with
  | .ok (.inProgress delay _) => if report.journal.suspends name cause then delay.toNat else 0
  | _ => 0

/-- The seconds that several passes hand out at a step for a cause. -/
def handedOut (name : String) (cause : SuspensionCause) (reports : List (PassReport M)) : Nat :=
  (reports.map (·.handsOut name cause)).sum

variable {name : String} {cause : SuspensionCause}

@[simp] theorem handedOut_append (before after : List (PassReport M)) :
    handedOut name cause (before ++ after) =
      handedOut name cause before + handedOut name cause after := by
  simp only [handedOut, List.map_append, List.sum_append]

/-- Passes never take a delay back. -/
theorem handedOut_mono {reports later : List (PassReport M)} (h : reports <+: later) :
    handedOut name cause reports ≤ handedOut name cause later := by
  obtain ⟨after, rfl⟩ := h
  rw [handedOut_append]
  exact Nat.le_add_right _ _

/-- The journal of a pass hands out what its outcome does. -/
theorem Walked.delays_eq {faults : FaultTable} {config : ChainConfig} {remote : Remote}
    {target : Target M} {steps : List (Step M)} {r : ProgressRecord M} {past : Journal}
    {report : PassReport M}
    (h : Walked faults config remote target steps r past report.result report.journal) :
    report.journal.delays name cause = report.handsOut name cause := by
  rw [PassReport.handsOut]
  split
  · next delay r' hresult =>
    rw [hresult] at h
    obtain ⟨step, _, _, hheld⟩ := h.exists_heldUp
    exact Journal.delays_of_suspensions_eq hheld.suspensions
  · next hover => exact Journal.delays_of_suspensions_eq_nil (h.suspensions fun _ _ => hover _ _)

end Chain

open Chain

namespace Run

variable {run : Run M} {n : Nat} {steps : List (Step M)} {r : ProgressRecord M} {past : Journal}
  {name : String} {cause : SuspensionCause}

/-- The journal of some passes hands out what their outcomes do. -/
theorem delays_journalOf {limit : Nat} {before after : List (PassReport M)}
    (hpasses : run.passes limit = before ++ after) :
    (journalOf before).delays name cause = handedOut name cause before := by
  induction before using List.reverseRecOn generalizing after with
  | nil => rfl
  | append_singleton before report ih =>
    rw [List.append_assoc, List.singleton_append] at hpasses
    obtain ⟨_, _, hwalked⟩ := walked_of_passes hpasses
    have hlast : (journalOf [report]).delays name cause = handedOut name cause [report] := by
      simpa [journalOf, handedOut] using hwalked.delays_eq
    rw [journalOf, List.flatMap_append, Journal.delays_append, handedOut_append, ← hlast,
      ← ih hpasses]
    rfl

/-- A run that has got somewhere in a pass has made the passes before. The pass goes on from their
journal, and what it did so far suspends nothing. -/
theorem Arrives.exists_begun (harrives : run.Arrives n steps r past) :
    ∃ begun gained, past = run.journal n ++ gained ∧ gained.suspensions = [] ∧
      (run.chain.pass run.faults (run.targets n) begun).run run.remote (run.journal n) =
        (walk run.faults run.chain.config (run.targets n) steps r).run run.remote past ∧
      ∀ limit, run.passes (n + limit) = run.passes n ++
        run.chain.passesToward run.faults run.remote run.targets limit n begun (run.journal n) := by
  induction harrives with
  | start =>
    refine ⟨run.start, [], rfl, rfl, rfl, ?_⟩
    intro limit
    rw [Nat.zero_add]
    rfl
  | passedOver _ hover ih =>
    obtain ⟨begun, gained, hpast, hnone, hpass, hpasses⟩ := ih
    refine ⟨begun, gained, hpast, hnone, ?_, hpasses⟩
    rw [hpass, walk_of_passed _ _ _ hover]
  | @completed n step steps r r' past journal _ htakes hvisit ih =>
    obtain ⟨begun, gained, rfl, hnone, hpass, hpasses⟩ := ih
    obtain ⟨visited, rfl, hvisited⟩ := visited_of_run hvisit
    refine ⟨begun, gained ++ visited, List.append_assoc _ _ _, ?_, ?_, hpasses⟩
    · rw [Journal.suspensions_append, hnone, hvisited.suspensions_of_onward, List.nil_append]
    · rw [hpass, walk_of_takesUp _ _ _ htakes, Session.run_bind]
      rw [visit] at hvisit
      rw [hvisit]
  | @resumed n step steps r r' past journal delay _ htakes hvisit ih =>
    obtain ⟨begun, gained, rfl, -, hpass, hpasses⟩ := ih
    obtain ⟨visited, rfl, -⟩ := visited_of_run hvisit
    have hsuspended : (run.chain.pass run.faults (run.targets n) begun).run run.remote
        (run.journal n) = (.ok (.inProgress delay r'), run.journal n ++ (gained ++ visited)) := by
      rw [visit] at hvisit
      rw [hpass, walk_of_takesUp _ _ _ htakes, Session.run_bind, hvisit, List.append_assoc]
      rfl
    have hnext : ∀ limit, run.passes (n + (limit + 1)) = run.passes n ++
        ⟨.ok (.inProgress delay r'), gained ++ visited⟩ ::
          run.chain.passesToward run.faults run.remote run.targets limit (n + 1) r'
            (run.journal n ++ (gained ++ visited)) := by
      intro limit
      rw [hpasses]
      simp only [passesToward, hsuspended, List.drop_left]
    have hpass : run.passes (n + 1) =
        run.passes n ++ [⟨.ok (.inProgress delay r'), gained ++ visited⟩] := hnext 0
    have hjournal : run.journal (n + 1) = run.journal n ++ (gained ++ visited) := by
      simp [journal, hpass, journalOf]
    refine ⟨r', [], ?_, rfl, ?_, ?_⟩
    · rw [hjournal, List.append_nil, List.append_assoc]
    · rw [hjournal, List.append_assoc]
      rfl
    · intro limit
      rw [hjournal, Nat.add_assoc, Nat.add_comm 1 limit, hnext, hpass, List.append_assoc,
        List.singleton_append]

/-- Wherever a run gets to, the journal hands out what the outcomes of the passes before do. -/
theorem Arrives.delays_eq (harrives : run.Arrives n steps r past) :
    past.delays name cause = handedOut name cause (run.passes n) := by
  obtain ⟨_, gained, rfl, hnone, _⟩ := harrives.exists_begun
  rw [Journal.delays_append, Journal.delays_of_suspensions_eq_nil hnone, Nat.add_zero]
  exact delays_journalOf (List.append_nil _).symm

end Run

end Lifecycle
