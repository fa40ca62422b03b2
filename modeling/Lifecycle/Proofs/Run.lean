import Lifecycle.Proofs.Journal
import Lifecycle.Proofs.Walk

/-!
# Runs over many passes

A run is a sequence of passes, each of which takes up the record that the pass
before it left. `Run.Arrives` follows a run from step to step: with which record
and which journal a pass arrives at the steps that it has left. `Run.Ends` says how
a pass ends. `Run.ends_of_passes` connects both with the passes themselves, so that
an invariant of a run is an induction on `Run.Arrives` with one case for each way
to go on.
-/

namespace Lifecycle

open Json

variable {M : Type}

namespace Chain

/-- Passes as `passes` makes them, toward a target that may be another one in each pass; so many
passes came before. -/
def passesToward (c : Chain M) (faults : FaultTable) (remote : Remote) (targets : Nat → Target M) :
    Nat → Nat → ProgressRecord M → Journal → List (PassReport M)
  | 0, _, _, _ => []
  | limit + 1, n, r, past =>
    let (result, journal) := (c.pass faults (targets n) r).run remote past
    let report := ⟨result, journal.drop past.length⟩
    match result with
    | .ok (.inProgress _ r) => report :: c.passesToward faults remote targets limit (n + 1) r journal
    | _ => [report]

/-- Passes toward one target are passes toward targets that are all the same. -/
theorem passes_eq_passesToward (c : Chain M) (faults : FaultTable) (target : Target M)
    (remote : Remote) (limit n : Nat) (r : ProgressRecord M) (past : Journal) :
    c.passes faults target remote limit r past =
      c.passesToward faults remote (fun _ => target) limit n r past := by
  induction limit generalizing n r past with
  | zero => rfl
  | succ limit ih =>
    simp only [passes, passesToward]
    rcases (c.pass faults target r).run remote past with ⟨_ | _ | _ | ⟨_, r'⟩, journal⟩
    · rfl
    · rfl
    · rfl
    · simp only [ih (n + 1) r' journal]

/-- The record that a visit leaves, unless the operation is over. -/
def recordLeft? : Except Defect (Except (Outcome M) (ProgressRecord M)) → Option (ProgressRecord M)
  | .ok (.ok r) => some r
  | .ok (.error outcome) => outcome.progress?
  | .error _ => none

/-- A pass that leaves the operation suspended. -/
def PassReport.IsSuspended (report : PassReport M) : Prop :=
  ∃ delay r, report.result = .ok (.inProgress delay r)

/-- The first of some passes is a walk over the chain, and the others go on from the record that it
leaves, if it leaves the operation suspended. -/
theorem exists_passesToward_succ (c : Chain M) (faults : FaultTable) (remote : Remote)
    (targets : Nat → Target M) (limit n : Nat) (r : ProgressRecord M) (past : Journal) :
    ∃ report : PassReport M, Walked faults c.config remote (targets n) c.steps (seed (targets n) r)
        past report.result report.journal ∧
      c.passesToward faults remote targets (limit + 1) n r past =
        report :: match report.result with
          | .ok (.inProgress _ r') =>
            c.passesToward faults remote targets limit (n + 1) r' (past ++ report.journal)
          | _ => [] := by
  rcases hpass : (c.pass faults (targets n) r).run remote past with ⟨result, journal⟩
  obtain ⟨gained, rfl, hwalked⟩ := exists_walked_of_pass faults remote _ hpass
  refine ⟨⟨result, gained⟩, hwalked, ?_⟩
  simp only [passesToward, hpass, List.drop_left]
  rcases result with defect | model | ⟨kind, message⟩ | ⟨delay, r'⟩ <;> rfl

/-- All passes but the last one leave the operation suspended; the last one does so only if no
further pass is made. -/
theorem exists_passesToward_eq (c : Chain M) (faults : FaultTable) (remote : Remote)
    (targets : Nat → Target M) (limit n : Nat) (r : ProgressRecord M) (past : Journal) :
    ∃ suspended last, c.passesToward faults remote targets (limit + 1) n r past =
        suspended ++ [last] ∧
      (∀ report ∈ suspended, report.IsSuspended) ∧ (last.IsSuspended → suspended.length = limit) := by
  induction limit generalizing n r past with
  | zero =>
    obtain ⟨report, _, hpasses⟩ := c.exists_passesToward_succ faults remote targets 0 n r past
    refine ⟨[], report, ?_, by simp, fun _ => rfl⟩
    rw [hpasses]
    rcases report.result with _ | _ | _ | _ <;> rfl
  | succ limit ih =>
    obtain ⟨report, _, hpasses⟩ :=
      c.exists_passesToward_succ faults remote targets (limit + 1) n r past
    rw [hpasses]
    split
    · next delay r' hresult =>
      obtain ⟨suspended, last, hrest, hsuspended, hlast⟩ := ih (n + 1) r' (past ++ report.journal)
      refine ⟨report :: suspended, last, by rw [hrest]; rfl, ?_, ?_⟩
      · rw [List.forall_mem_cons]
        exact ⟨⟨delay, r', hresult⟩, hsuspended⟩
      · intro h
        rw [List.length_cons, hlast h]
    · next hover =>
      refine ⟨[], report, rfl, by simp, ?_⟩
      rintro ⟨delay, r', hresult⟩
      exact absurd hresult (hover delay r')

/-- The journal of several passes. -/
def journalOf (reports : List (PassReport M)) : Journal := reports.flatMap (·.journal)

end Chain

open Chain

/-- All that decides how a run goes. -/
structure Run (M : Type) where
  /-- The chain that the passes walk over. -/
  chain : Chain M
  /-- What the faults of the remote service mean. -/
  faults : FaultTable
  /-- The remote service. -/
  remote : Remote
  /-- The target of each pass, counted from zero. -/
  targets : Nat → Target M
  /-- The record that the first pass takes up. -/
  start : ProgressRecord M

namespace Run

/-- The passes of a run, at most so many. -/
def passes (run : Run M) (limit : Nat) : List (PassReport M) :=
  run.chain.passesToward run.faults run.remote run.targets limit 0 run.start []

/-- The journal of a run of at most so many passes. -/
def journal (run : Run M) (limit : Nat) : Journal := journalOf (run.passes limit)

/-- A visit to a step in a pass, on top of a journal. -/
def visit (run : Run M) (n : Nat) (step : Step M) (r : ProgressRecord M) (past : Journal) :
    Except Defect (Except (Outcome M) (ProgressRecord M)) × Journal :=
  (Chain.visit run.faults run.chain.config (run.targets n) step r).run run.remote past

/-- A run gets to a pass, the steps that the pass has left, the record by then and the journal by
then. -/
inductive Arrives (run : Run M) : Nat → List (Step M) → ProgressRecord M → Journal → Prop
  /-- The first pass begins. -/
  | start : Arrives run 0 run.chain.steps (seed (run.targets 0) run.start) []
  /-- A step is passed over. -/
  | passedOver {n : Nat} {step : Step M} {steps : List (Step M)} {r : ProgressRecord M}
      {past : Journal} (harrives : Arrives run n (step :: steps) r past)
      (hover : takesUp (run.targets n) step r = false) : Arrives run n steps r past
  /-- A visit completes a step. -/
  | completed {n : Nat} {step : Step M} {steps : List (Step M)} {r r' : ProgressRecord M}
      {past journal : Journal} (harrives : Arrives run n (step :: steps) r past)
      (htakes : takesUp (run.targets n) step r = true)
      (hvisit : run.visit n step r past = (.ok (.ok r'), journal)) : Arrives run n steps r' journal
  /-- A visit suspends the operation, and another pass takes it up. -/
  | resumed {n : Nat} {step : Step M} {steps : List (Step M)} {r r' : ProgressRecord M}
      {past journal : Journal} {delay : UInt64} (harrives : Arrives run n (step :: steps) r past)
      (htakes : takesUp (run.targets n) step r = true)
      (hvisit : run.visit n step r past = (.ok (.error (.inProgress delay r')), journal)) :
      Arrives run (n + 1) run.chain.steps (seed (run.targets (n + 1)) r') journal

/-- A pass of a run ends with a result, and with the journal by then. -/
inductive Ends (run : Run M) : Nat → Except Defect (Outcome M) → Journal → Prop
  /-- All steps are walked over. -/
  | finished {n : Nat} {r : ProgressRecord M} {past : Journal}
      (harrives : run.Arrives n [] r past) : Ends run n (.ok (report run.chain.config r)) past
  /-- A visit to a step ends the pass. -/
  | stopped {n : Nat} {step : Step M} {steps : List (Step M)} {r : ProgressRecord M}
      {past journal : Journal} {outcome : Outcome M}
      (harrives : run.Arrives n (step :: steps) r past)
      (htakes : takesUp (run.targets n) step r = true)
      (hvisit : run.visit n step r past = (.ok (.error outcome), journal)) :
      Ends run n (.ok outcome) journal
  /-- A visit to a step runs into a defect. -/
  | broke {n : Nat} {step : Step M} {steps : List (Step M)} {r : ProgressRecord M}
      {past journal : Journal} {defect : Defect}
      (harrives : run.Arrives n (step :: steps) r past)
      (htakes : takesUp (run.targets n) step r = true)
      (hvisit : run.visit n step r past = (.error defect, journal)) :
      Ends run n (.error defect) journal

variable {run : Run M}

/-- A walk that goes on from where a run has got to ends as `Ends` says. -/
theorem Arrives.ends_of_walked {n : Nat} {steps : List (Step M)} {r : ProgressRecord M}
    {past gained : Journal} {result : Except Defect (Outcome M)}
    (harrives : run.Arrives n steps r past)
    (hwalked : Walked run.faults run.chain.config run.remote (run.targets n) steps r past result
      gained) : run.Ends n result (past ++ gained) := by
  induction hwalked with
  | finished =>
    rw [List.append_nil]
    exact .finished harrives
  | passedOver hover _ ih => exact ih (.passedOver harrives hover)
  | completed htakes hvisit _ ih =>
    rw [← List.append_assoc]
    exact ih (.completed harrives htakes hvisit)
  | stopped htakes hvisit => exact .stopped harrives htakes hvisit
  | broke htakes hvisit => exact .broke harrives htakes hvisit

/-- From where a run has got to, a walk ends as `Ends` says. -/
theorem Arrives.exists_ends {n : Nat} {steps : List (Step M)} {r : ProgressRecord M}
    {past : Journal} (harrives : run.Arrives n steps r past) :
    ∃ result gained, (walk run.faults run.chain.config (run.targets n) steps r).run run.remote past =
        (result, past ++ gained) ∧ run.Ends n result (past ++ gained) := by
  obtain ⟨result, gained, hrun, hwalked⟩ := exists_walked run.faults run.chain.config run.remote
    (run.targets n) steps r past
  exact ⟨result, gained, hrun, harrives.ends_of_walked hwalked⟩

/-- A pass that ends has begun. -/
theorem Ends.exists_arrives {n : Nat} {result : Except Defect (Outcome M)} {journal : Journal}
    (h : run.Ends n result journal) : ∃ steps r past, run.Arrives n steps r past := by
  cases h with
  | finished harrives => exact ⟨_, _, _, harrives⟩
  | stopped harrives => exact ⟨_, _, _, harrives⟩
  | broke harrives => exact ⟨_, _, _, harrives⟩

/-- A suspended pass leads to the next one. -/
theorem Ends.arrives {n : Nat} {delay : UInt64} {r : ProgressRecord M} {journal : Journal}
    (h : run.Ends n (.ok (.inProgress delay r)) journal) :
    run.Arrives (n + 1) run.chain.steps (seed (run.targets (n + 1)) r) journal := by
  generalize hresult : (.ok (.inProgress delay r) : Except Defect (Outcome M)) = result at h
  cases h with
  | finished harrives =>
    rw [report] at hresult
    cases hterminal : run.chain.config.terminal <;> simp [hterminal] at hresult
  | stopped harrives htakes hvisit =>
    obtain rfl := Except.ok.inj hresult
    exact .resumed harrives htakes hvisit
  | broke => cases hresult

private theorem walked_of_passesToward {limit n : Nat} {r : ProgressRecord M} {past : Journal}
    (harrives : run.Arrives n run.chain.steps (seed (run.targets n) r) past)
    {before after : List (PassReport M)} {report : PassReport M}
    (hreports : run.chain.passesToward run.faults run.remote run.targets limit n r past =
      before ++ report :: after) :
    ∃ r', run.Arrives (n + before.length) run.chain.steps r' (past ++ journalOf before) ∧
      Walked run.faults run.chain.config run.remote (run.targets (n + before.length))
        run.chain.steps r' (past ++ journalOf before) report.result report.journal := by
  induction limit generalizing n r past before with
  | zero => simp [passesToward] at hreports
  | succ limit ih =>
    obtain ⟨first, hwalked, hpasses⟩ :=
      run.chain.exists_passesToward_succ run.faults run.remote run.targets limit n r past
    rw [hpasses] at hreports
    cases before with
    | nil =>
      obtain ⟨rfl, _⟩ := List.cons.inj hreports
      rw [List.length_nil, Nat.add_zero, journalOf, List.flatMap_nil, List.append_nil]
      exact ⟨_, harrives, hwalked⟩
    | cons other rest =>
      obtain ⟨rfl, hrest⟩ := List.cons.inj hreports
      split at hrest
      · next delay r' hresult =>
        rw [hresult] at hwalked
        obtain ⟨r'', hlast⟩ := ih (harrives.ends_of_walked hwalked).arrives hrest
        refine ⟨r'', ?_⟩
        rw [List.length_cons, show n + (rest.length + 1) = n + 1 + rest.length by omega]
        simpa [journalOf] using hlast
      · simp at hrest

/-- Each pass of a run is a walk over the chain, on top of the journal of the passes before. -/
theorem walked_of_passes {limit : Nat} {before after : List (PassReport M)} {report : PassReport M}
    (hreports : run.passes limit = before ++ report :: after) :
    ∃ r, run.Arrives before.length run.chain.steps r (journalOf before) ∧
      Walked run.faults run.chain.config run.remote (run.targets before.length) run.chain.steps r
        (journalOf before) report.result report.journal := by
  simpa using walked_of_passesToward .start hreports

/-- Each pass of a run ends as `Ends` says, with the journal of all passes up to it. -/
theorem ends_of_passes {limit : Nat} {before after : List (PassReport M)} {report : PassReport M}
    (hreports : run.passes limit = before ++ report :: after) :
    run.Ends before.length report.result (journalOf before ++ report.journal) := by
  obtain ⟨r, harrives, hwalked⟩ := walked_of_passes hreports
  exact harrives.ends_of_walked hwalked

/-- A run of some passes has the journal that its last pass ends with. -/
theorem journal_eq_nil_or_ends (run : Run M) (limit : Nat) :
    run.journal limit = [] ∨ ∃ n result, run.Ends n result (run.journal limit) := by
  rw [journal]
  rcases List.eq_nil_or_concat (run.passes limit) with hnone | ⟨before, report, hlast⟩
  · left
    rw [hnone]
    rfl
  · right
    rw [List.concat_eq_append] at hlast
    refine ⟨before.length, report.result, ?_⟩
    have hends := ends_of_passes hlast
    rw [hlast]
    simpa [journalOf] using hends

/-- A pass that succeeds is the last one of its run. -/
theorem ends_of_success {limit : Nat} {report : PassReport M} {model : Option M}
    (hreport : report ∈ run.passes limit) (hsuccess : report.result = .ok (.success model)) :
    ∃ n, run.Ends n (.ok (.success model)) (run.journal limit) := by
  cases limit with
  | zero => cases hreport
  | succ limit =>
    obtain ⟨suspended, last, hpasses, hsuspended, _⟩ :=
      exists_passesToward_eq run.chain run.faults run.remote run.targets limit 0 run.start []
    have hreports : run.passes (limit + 1) = suspended ++ [last] := hpasses
    obtain rfl : report = last := by
      rw [hreports, List.mem_append, List.mem_singleton] at hreport
      refine hreport.resolve_left fun hmem => ?_
      obtain ⟨_, _, hprogress⟩ := hsuspended report hmem
      cases hprogress.symm.trans hsuccess
    have hends := ends_of_passes hreports
    rw [hsuccess] at hends
    refine ⟨suspended.length, ?_⟩
    rw [journal, hreports]
    simpa [journalOf] using hends

/-- The way a visit to a step in a pass goes. -/
abbrev Visits (run : Run M) (n : Nat) (step : Step M) (r : ProgressRecord M) (past : Journal)
    (result : Except Defect (Except (Outcome M) (ProgressRecord M))) (gained : Journal) : Prop :=
  Visited run.faults run.chain.config run.remote (run.targets n) step r past result gained

/-- The steps that a pass has left are the last ones of the chain. -/
theorem Arrives.exists_front {n : Nat} {steps : List (Step M)} {r : ProgressRecord M}
    {past : Journal} (harrives : run.Arrives n steps r past) :
    ∃ front, run.chain.steps = front ++ steps := by
  induction harrives with
  | start => exact ⟨[], rfl⟩
  | @passedOver n step steps r past _ _ ih =>
    obtain ⟨front, hfront⟩ := ih
    exact ⟨front ++ [step], by simp [hfront]⟩
  | @completed n step steps r r' past journal _ _ _ ih =>
    obtain ⟨front, hfront⟩ := ih
    exact ⟨front ++ [step], by simp [hfront]⟩
  | resumed => exact ⟨[], rfl⟩

/-- A step that a run gets to is one of the chain. -/
theorem Arrives.mem {n : Nat} {step : Step M} {steps : List (Step M)} {r : ProgressRecord M}
    {past : Journal} (harrives : run.Arrives n (step :: steps) r past) :
    step ∈ run.chain.steps := by
  obtain ⟨front, hfront⟩ := harrives.exists_front
  simp [hfront]

/-- What holds of the first record and is kept by every visit holds wherever a run gets to. -/
theorem Arrives.invariant {I : ProgressRecord M → Journal → Prop}
    (hstart : I (seed (run.targets 0) run.start) [])
    (hseed : ∀ n r past, I r past → I (seed (run.targets n) r) past)
    (hvisit : ∀ {n step steps r r' past result gained}, run.Arrives n (step :: steps) r past →
      takesUp (run.targets n) step r = true → run.Visits n step r past result gained →
      recordLeft? result = some r' → I r past → I r' (past ++ gained))
    {n : Nat} {steps : List (Step M)} {r : ProgressRecord M} {past : Journal}
    (harrives : run.Arrives n steps r past) : I r past := by
  induction harrives with
  | start => exact hstart
  | passedOver _ _ ih => exact ih
  | completed harrives htakes hrun ih =>
    obtain ⟨gained, rfl, hvisited⟩ := visited_of_run hrun
    exact hvisit harrives htakes hvisited rfl ih
  | resumed harrives htakes hrun ih =>
    obtain ⟨gained, rfl, hvisited⟩ := visited_of_run hrun
    exact hseed _ _ _ (hvisit harrives htakes hvisited rfl ih)

section Throughout

variable {Q : Journal → Entry → Prop}
  (hvisit : ∀ {n step steps r past result gained}, run.Arrives n (step :: steps) r past →
    takesUp (run.targets n) step r = true → run.Visits n step r past result gained →
    Journal.Throughout (fun before entry => Q (past ++ before) entry) gained)
include hvisit

/-- What holds throughout every visit holds throughout the journal wherever a run gets to. -/
theorem Arrives.throughout {n : Nat} {steps : List (Step M)} {r : ProgressRecord M}
    {past : Journal} (harrives : run.Arrives n steps r past) : Journal.Throughout Q past := by
  induction harrives with
  | start => exact Journal.throughout_nil
  | passedOver _ _ ih => exact ih
  | completed harrives htakes hrun ih =>
    obtain ⟨gained, rfl, hvisited⟩ := visited_of_run hrun
    exact Journal.throughout_append.mpr ⟨ih, hvisit harrives htakes hvisited⟩
  | resumed harrives htakes hrun ih =>
    obtain ⟨gained, rfl, hvisited⟩ := visited_of_run hrun
    exact Journal.throughout_append.mpr ⟨ih, hvisit harrives htakes hvisited⟩

/-- What holds throughout every visit holds throughout the journal at the end of a pass. -/
theorem Ends.throughout {n : Nat} {result : Except Defect (Outcome M)} {journal : Journal}
    (hends : run.Ends n result journal) : Journal.Throughout Q journal := by
  cases hends with
  | finished harrives => exact harrives.throughout hvisit
  | stopped harrives htakes hrun =>
    obtain ⟨gained, rfl, hvisited⟩ := visited_of_run hrun
    exact Journal.throughout_append.mpr
      ⟨harrives.throughout hvisit, hvisit harrives htakes hvisited⟩
  | broke harrives htakes hrun =>
    obtain ⟨gained, rfl, hvisited⟩ := visited_of_run hrun
    exact Journal.throughout_append.mpr
      ⟨harrives.throughout hvisit, hvisit harrives htakes hvisited⟩

/-- What holds throughout every visit holds throughout the journal of a run. -/
theorem throughout_journal (limit : Nat) : Journal.Throughout Q (run.journal limit) := by
  rcases run.journal_eq_nil_or_ends limit with hnone | ⟨n, result, hends⟩
  · rw [hnone]
    exact Journal.throughout_nil
  · exact hends.throughout hvisit

end Throughout

end Run

end Lifecycle
