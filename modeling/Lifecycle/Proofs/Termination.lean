import Lifecycle.Proofs.Budget
import Mathlib.Algebra.Order.BigOperators.Group.List
import Mathlib.Algebra.Order.Ring.Nat

/-!
# Runs come to an end

Each suspended pass uses up one of the suspensions that the steps of the chain may
still cause, and no pass gives any of them back. So a run comes to an end after at
most as many suspended passes as the schedules of its steps have seconds, and one
for each step's cool-down.
-/

namespace Lifecycle

open ProgressRecord

variable {M : Type}

namespace Chain

/-- How many suspensions the steps of a chain may still cause. -/
def suspensionsLeft (c : Chain M) (polling : Step M → BackoffPolicy) (r : ProgressRecord M) : Nat :=
  (c.steps.map fun step => r.suspensionsLeft c.config (polling step) step.name).sum

/-- How many suspensions the steps of a chain may cause at all. -/
def mostSuspensions (c : Chain M) (polling : Step M → BackoffPolicy) : Nat :=
  (c.steps.map fun step =>
    c.config.throttling.timeout.toNat + (polling step).timeout.toNat + 1).sum

variable {r r' : ProgressRecord M}

/-- The steps never cause more suspensions than they may cause at all. -/
theorem suspensionsLeft_le_most (c : Chain M) (polling : Step M → BackoffPolicy)
    (r : ProgressRecord M) : c.suspensionsLeft polling r ≤ c.mostSuspensions polling :=
  List.sum_le_sum fun step _ => suspensionsLeft_le_timeouts c.config (polling step) step.name r

/-- What is used up is not left again. -/
theorem suspensionsLeft_le_of_spends (c : Chain M) (polling : Step M → BackoffPolicy)
    (h : Spends r r') : c.suspensionsLeft polling r' ≤ c.suspensionsLeft polling r :=
  List.sum_le_sum fun step _ => suspensionsLeft_le h c.config (polling step) step.name

/-- What a step uses up is not left to the chain. -/
theorem suspensionsLeft_lt_of_spends {c : Chain M} {polling : Step M → BackoffPolicy}
    (h : Spends r r') {step : Step M} (hstep : step ∈ c.steps)
    (hlt : r'.suspensionsLeft c.config (polling step) step.name <
      r.suspensionsLeft c.config (polling step) step.name) :
    c.suspensionsLeft polling r' < c.suspensionsLeft polling r :=
  List.sum_lt_sum _ _
    (fun other _ => suspensionsLeft_le h c.config (polling other) other.name) ⟨step, hstep, hlt⟩

/-- Taking up a record gives nothing back. -/
theorem spends_seed (target : Target M) (r : ProgressRecord M) : Spends r (seed target r) := by
  unfold seed
  cases r.model <;> exact .of_eq rfl rfl

/-- A defect in a visit comes from a hook of the step. -/
theorem Visited.exists_hook {faults : FaultTable} {config : ChainConfig} {remote : Remote}
    {target : Target M} {step : Step M} {past gained : Journal} {defect : Defect}
    (h : Visited faults config remote target step r past (.error defect) gained) :
    ∃ r', step.request target r' = .error defect ∨
      step.stabilization target r' = .error defect := by
  cases h with
  | unmade _ hissued =>
    cases hissued with
    | defect hrequest => exact ⟨r, .inl hrequest⟩
  | @unseen r₁ _ _ _ _ hstabilized =>
    cases hstabilized with
    | defect hdeclared => exact ⟨r₁, .inr hdeclared⟩

end Chain

open Chain

namespace Run

/-- The steps of a run have schedules that do not change and fit into counters. -/
structure Scheduled (run : Run M) (polling : Step M → BackoffPolicy) : Prop where
  /-- Hooks leave the marks alone. -/
  marks : ∀ step ∈ run.chain.steps, step.KeepsMarks
  /-- Hooks leave the counters alone. -/
  counters : ∀ step ∈ run.chain.steps, step.KeepsCounters
  /-- Looks for the effect of a step's request follow the schedule of the step. -/
  schedule : ∀ step ∈ run.chain.steps, ∀ n r s,
    step.stabilization (run.targets n) r = .ok (some s) →
      s.policy.getD run.chain.config.stabilization = polling step
  /-- The schedule of requests sent again ends before a counter does. -/
  throttlingTimeout : run.chain.config.throttling.timeout.toNat < UInt32.size
  /-- The schedules of looks end before a counter does. -/
  pollingTimeout : ∀ step ∈ run.chain.steps, (polling step).timeout.toNat < UInt32.size

variable {run : Run M} {polling : Step M → BackoffPolicy}

/-- By the time of a pass, each pass before it has used up a suspension. -/
theorem Arrives.suspensionsLeft_add_le (hscheduled : run.Scheduled polling) {n : Nat}
    {steps : List (Step M)} {r : ProgressRecord M} {past : Journal}
    (harrives : run.Arrives n steps r past) :
    run.chain.suspensionsLeft polling r + n ≤ run.chain.suspensionsLeft polling run.start := by
  induction harrives with
  | start =>
    exact suspensionsLeft_le_of_spends run.chain polling (spends_seed (run.targets 0) run.start)
  | passedOver _ _ ih => exact ih
  | @completed n step steps r r' past journal harrives _ hrun ih =>
    obtain ⟨gained, rfl, hvisited⟩ := visited_of_run hrun
    have hspends := hvisited.spends (hscheduled.marks step harrives.mem)
      (hscheduled.counters step harrives.mem)
    have hle := suspensionsLeft_le_of_spends run.chain polling hspends
    omega
  | @resumed n step steps r r' past journal delay harrives _ hrun ih =>
    obtain ⟨gained, rfl, hvisited⟩ := visited_of_run hrun
    have hstep := harrives.mem
    obtain ⟨hspends, hused⟩ := hvisited.suspensionsLeft_lt (hscheduled.marks step hstep)
      (hscheduled.counters step hstep) hscheduled.throttlingTimeout
      (hscheduled.schedule step hstep n) (hscheduled.pollingTimeout step hstep) rfl
    have hlt := suspensionsLeft_lt_of_spends hspends hstep hused
    have hseed := suspensionsLeft_le_of_spends run.chain polling
      (spends_seed (run.targets (n + 1)) r')
    omega

/-- No pass begins after more suspensions than the steps may cause. -/
theorem Arrives.le_mostSuspensions (hscheduled : run.Scheduled polling) {n : Nat}
    {steps : List (Step M)} {r : ProgressRecord M} {past : Journal}
    (harrives : run.Arrives n steps r past) : n ≤ run.chain.mostSuspensions polling := by
  have hused := harrives.suspensionsLeft_add_le hscheduled
  have hmost := suspensionsLeft_le_most run.chain polling run.start
  omega

/-- A defect in a run comes from a hook of a step. -/
theorem Ends.exists_hook {n : Nat} {defect : Defect} {journal : Journal}
    (hends : run.Ends n (.error defect) journal) :
    ∃ step ∈ run.chain.steps, ∃ r, step.request (run.targets n) r = .error defect ∨
      step.stabilization (run.targets n) r = .error defect := by
  cases hends with
  | broke harrives _ hrun =>
    obtain ⟨gained, rfl, hvisited⟩ := visited_of_run hrun
    exact ⟨_, harrives.mem, hvisited.exists_hook⟩

/-- A run comes to an end after at most as many suspended passes as its steps may cause. Its last
pass reports success or a failure, unless a hook of a step runs into a defect. -/
theorem ends_within (run : Run M) (polling : Step M → BackoffPolicy)
    (hscheduled : run.Scheduled polling) {limit : Nat}
    (hlimit : run.chain.mostSuspensions polling < limit) :
    ∃ suspended last, run.passes limit = suspended ++ [last] ∧
      (∀ report ∈ suspended, report.IsSuspended) ∧
      suspended.length ≤ run.chain.mostSuspensions polling ∧
      ((∃ outcome, last.result = .ok outcome ∧ outcome.isTerminal = true) ∨
        ∃ defect, last.result = .error defect ∧ ∃ step ∈ run.chain.steps, ∃ n r,
          step.request (run.targets n) r = .error defect ∨
            step.stabilization (run.targets n) r = .error defect) := by
  obtain ⟨limit, rfl⟩ := Nat.exists_eq_succ_of_ne_zero (Nat.ne_of_gt (Nat.zero_lt_of_lt hlimit))
  obtain ⟨suspended, last, hpasses, hsuspended, hlast⟩ :=
    run.chain.exists_passesToward_eq run.faults run.remote run.targets limit 0 run.start []
  have hends : run.Ends suspended.length last.result
      (journalOf suspended ++ last.journal) := ends_of_passes hpasses
  obtain ⟨_, _, _, harrives⟩ := hends.exists_arrives
  refine ⟨suspended, last, hpasses, hsuspended, harrives.le_mostSuspensions hscheduled, ?_⟩
  cases hresult : last.result with
  | error defect =>
    rw [hresult] at hends
    obtain ⟨step, hstep, r, hhook⟩ := hends.exists_hook
    exact .inr ⟨defect, rfl, step, hstep, suspended.length, r, hhook⟩
  | ok outcome =>
    left
    refine ⟨outcome, rfl, ?_⟩
    cases outcome with
    | success => rfl
    | failed => rfl
    | inProgress delay r =>
      have hlength := hlast ⟨delay, r, hresult⟩
      rw [hresult] at hends
      have hmost := hends.arrives.le_mostSuspensions hscheduled
      omega

/-- A run whose only request is accepted and has an effect that never shows. -/
def neverShown : Run Unit where
  chain :=
    { operation := "create"
      config := { stabilization := .constant 30 60, throttling := .constant 5 60 }
      steps :=
        [{ name := "create"
           request := fun _ _ => .ok ⟨"Create", .null⟩
           stabilization := fun _ _ => .ok (some { probe := .describe "it" })
           isStable := fun _ _ => false }] }
  faults := FaultTable.common
  remote _ _ := .ok .null
  targets _ := { desired := () }
  start := .empty

/-- The run whose effect never shows comes to an end in time: it is given up in the third pass. -/
theorem neverShown_ends :
    neverShown.Scheduled (fun _ => .constant 30 60) ∧
      neverShown.chain.mostSuspensions (fun _ => .constant 30 60) = 121 ∧
      (neverShown.passes 122).length = 3 ∧
      ∃ suspended last, neverShown.passes 122 = suspended ++ [last] ∧
        (∀ report ∈ suspended, report.IsSuspended) ∧
        ∃ outcome, last.result = .ok outcome ∧ outcome.isTerminal = true := by
  have hscheduled : neverShown.Scheduled (fun _ => .constant 30 60) := by
    refine ⟨?_, ?_, ?_, by decide +kernel, by decide +kernel⟩
    · intro step hstep
      obtain rfl := List.mem_singleton.mp hstep
      exact ⟨fun _ _ => rfl, fun _ _ => rfl⟩
    · intro step hstep
      obtain rfl := List.mem_singleton.mp hstep
      exact ⟨fun _ _ => rfl, fun _ _ => rfl⟩
    · intro step hstep n r s hdeclared
      obtain rfl := List.mem_singleton.mp hstep
      obtain rfl := Option.some.inj (Except.ok.inj hdeclared)
      rfl
  obtain ⟨suspended, last, hpasses, hsuspended, _, hlast⟩ :=
    ends_within neverShown (fun _ => .constant 30 60) hscheduled
      (show _ < 122 by decide +kernel)
  refine ⟨hscheduled, by decide +kernel, by decide +kernel, suspended, last, hpasses,
    hsuspended, ?_⟩
  rcases hlast with hterminal | ⟨defect, _, step, hstep, n, r, hhook⟩
  · exact hterminal
  · obtain rfl := List.mem_singleton.mp hstep
    rcases hhook with hrequest | hdeclared
    · cases hrequest
    · cases hdeclared

end Run

end Lifecycle
