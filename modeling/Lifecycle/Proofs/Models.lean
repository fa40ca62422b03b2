import Lifecycle.Proofs.Hooks

/-!
# The model of a suspended operation

Only the hooks of a step touch the model in the record. So what holds of the desired
model, and is kept by the hooks, holds of the model of every suspended operation. A
step that comes last and never suspends once its request is accepted may do with the
model what it likes (`Run.Ends.models`).
-/

namespace Lifecycle

open Json

variable {M : Type}

/-- What holds of the model of a record, where it has one. -/
def ProgressRecord.Models (Q : M → Prop) (r : ProgressRecord M) : Prop := ∀ model ∈ r.model, Q model

/-- The hooks of the step keep a property of the model. -/
structure Step.KeepsModels (Q : M → Prop) (step : Step M) : Prop where
  /-- Whatever the answer to the request is. -/
  capture : ∀ response r, r.Models Q → (step.capture response r).Models Q
  /-- Whatever the stable state is. -/
  onComplete : ∀ observed r, r.Models Q → (step.onComplete observed r).2.Models Q

/-- Once its request is accepted, the step is complete. -/
structure Step.Immediate (step : Step M) : Prop where
  /-- There is nothing to wait for. -/
  stabilization : ∀ target r, step.stabilization target r = .ok none
  /-- There is no cool-down. -/
  onComplete : ∀ observed r, (step.onComplete observed r).1 = .advance

/-- Every step keeps a property of the model, but for an immediate one at the end. -/
structure Chain.KeepsModels (Q : M → Prop) (chain : Chain M) : Prop where
  /-- The steps before the last one keep it. -/
  init : ∀ step ∈ chain.steps.dropLast, step.KeepsModels Q
  /-- The last one keeps it or is immediate. -/
  last : ∀ step ∈ chain.steps.getLast?, step.KeepsModels Q ∨ step.Immediate

/-- Only a step that nothing follows need not keep the property. -/
theorem Chain.KeepsModels.of_split {Q : M → Prop} {chain : Chain M} (h : chain.KeepsModels Q)
    {front rest : List (Step M)} {step : Step M} (hsplit : chain.steps = front ++ step :: rest) :
    step.KeepsModels Q ∨ step.Immediate ∧ rest = [] := by
  cases rest with
  | nil =>
    have hlast : step ∈ chain.steps.getLast? := by simp [hsplit]
    exact (h.last step hlast).imp_right fun himmediate => ⟨himmediate, rfl⟩
  | cons next rest =>
    have hinit : step ∈ chain.steps.dropLast := by simp [hsplit, List.dropLast_append_of_ne_nil]
    exact .inl (h.init step hinit)

namespace ProgressRecord

variable {Q : M → Prop} {r r' : ProgressRecord M}

theorem models_empty : (empty : ProgressRecord M).Models Q := nofun

/-- What holds of the model is a matter of the model alone. -/
theorem Models.congr (h : r.Models Q) (hmodel : r'.model = r.model) : r'.Models Q := by
  rw [Models, hmodel]
  exact h

/-- Marks and counters have no part in what holds of the model. -/
theorem unmarked_models : Unmarked (Models Q) := fun _ _ h hmodel _ => h.congr hmodel

/-- A pass starts from the model of the record or from the desired one. -/
theorem Models.seed {target : Target M} (h : r.Models Q) (hdesired : Q target.desired) :
    (Chain.seed target r).Models Q := by
  rw [Chain.seed]
  cases hmodel : r.model with
  | some model => exact h
  | none =>
    rintro _ ⟨⟩
    exact hdesired

end ProgressRecord

open ProgressRecord

namespace Chain

variable {Q : M → Prop} {faults : FaultTable} {config : ChainConfig} {remote : Remote}
  {target : Target M} {step : Step M} {r r' : ProgressRecord M} {past gained : Journal}

/-- A visit to a step that keeps a property of the model leaves a model that has it. -/
theorem Visited.models {result : Except Defect (Except (Outcome M) (ProgressRecord M))}
    (hkeeps : step.KeepsModels Q)
    (h : Visited faults config remote target step r past result gained)
    (hleft : recordLeft? result = some r') (hr : r.Models Q) : r'.Models Q :=
  h.keeps unmarked_models ⟨hkeeps.capture, hkeeps.onComplete⟩ hleft hr

/-- A visit to an immediate step suspends the operation only before its request is accepted. -/
theorem Visited.models_of_immediate {outcome : Outcome M} (himmediate : step.Immediate)
    (h : Visited faults config remote target step r past (.ok (.error outcome)) gained)
    (hleft : outcome.progress? = some r') (hr : r.Models Q) : r'.Models Q := by
  cases h with
  | halted _ hissued => exact hissued.keeps unmarked_models hleft hr
  | unstable _ hstabilized =>
    cases hstabilized with
    | refused hdeclared => rw [himmediate.stabilization] at hdeclared; cases hdeclared
    | pending hdeclared => rw [himmediate.stabilization] at hdeclared; cases hdeclared
  | @shown _ r₂ observed _ _ _ _ _ _ hcompleted =>
    have hadvance := himmediate.onComplete observed r₂
    cases hcompleted with
    | cooling hcompletion => rw [hcompletion] at hadvance; cases hadvance

/-- A visit that suspends the operation leaves a model with the property, whichever kind of step it
is. -/
theorem Visited.models_of_suspended {delay : UInt64}
    (hstep : step.KeepsModels Q ∨ step.Immediate)
    (h : Visited faults config remote target step r past (.ok (.error (.inProgress delay r')))
      gained)
    (hr : r.Models Q) : r'.Models Q := by
  rcases hstep with hkeeps | himmediate
  · exact h.models hkeeps rfl hr
  · exact h.models_of_immediate himmediate rfl hr

/-- A walk over the steps that are left suspends the operation with a model that has the
property. -/
theorem models_of_walk {chain : Chain M} (hkeeps : chain.KeepsModels Q) {delay : UInt64}
    {journal : Journal} {front steps : List (Step M)} (hsplit : chain.steps = front ++ steps)
    (hwalk : (walk faults config target steps r).run remote past =
      (.ok (.inProgress delay r'), journal)) (hr : steps ≠ [] → r.Models Q) : r'.Models Q := by
  induction steps generalizing front r past with
  | nil =>
    rw [walk] at hwalk
    cases hterminal : config.terminal <;> simp [hterminal] at hwalk
  | cons step steps ih =>
    have hrest : chain.steps = front ++ [step] ++ steps := by simp [hsplit]
    have hmodels := hr (List.cons_ne_nil _ _)
    rw [walk] at hwalk
    split at hwalk
    · exact ih hrest hwalk fun _ => hmodels
    obtain ⟨result, gained, hvisit, hvisited⟩ :=
      exists_visited faults config remote target step r past
    rw [Session.run_bind, hvisit] at hwalk
    rcases result with defect | outcome | r₁
    · cases hwalk
    · obtain rfl := Except.ok.inj (Prod.mk.inj hwalk).1
      exact hvisited.models_of_suspended ((hkeeps.of_split hsplit).imp_right And.left) hmodels
    · refine ih hrest hwalk fun hleft => ?_
      rcases hkeeps.of_split hsplit with hstep | ⟨_, hlast⟩
      · exact hvisited.models hstep rfl hmodels
      · exact absurd hlast hleft

/-- A pass that suspends the operation leaves a model that has the property. -/
theorem models_of_pass {chain : Chain M} (hkeeps : chain.KeepsModels Q) {delay : UInt64}
    {journal : Journal}
    (hpass : (chain.pass faults target r).run remote past = (.ok (.inProgress delay r'), journal))
    (hr : r.Models Q) (hdesired : Q target.desired) : r'.Models Q :=
  models_of_walk hkeeps (List.nil_append _).symm hpass fun _ => hr.seed hdesired

end Chain

open Chain

namespace Run

variable {run : Run M} {Q : M → Prop}
  (hkeeps : run.chain.KeepsModels Q) (hdesired : ∀ n, Q (run.targets n).desired)
  (hstart : run.start.Models Q)
include hkeeps hdesired hstart

/-- As long as steps are left, the model has the property that the hooks keep. -/
theorem Arrives.models {n : Nat} {steps : List (Step M)} {r : ProgressRecord M} {past : Journal}
    (harrives : run.Arrives n steps r past) (hleft : steps ≠ []) : r.Models Q := by
  induction harrives with
  | start => exact hstart.seed (hdesired 0)
  | passedOver _ _ ih => exact ih (List.cons_ne_nil _ _)
  | completed harrives _ hrun ih =>
    obtain ⟨gained, _, hvisited⟩ := visited_of_run hrun
    obtain ⟨front, hfront⟩ := harrives.exists_front
    rcases hkeeps.of_split hfront with hstep | ⟨_, hlast⟩
    · exact hvisited.models hstep rfl (ih (List.cons_ne_nil _ _))
    · exact absurd hlast hleft
  | resumed harrives _ hrun ih =>
    obtain ⟨gained, _, hvisited⟩ := visited_of_run hrun
    obtain ⟨front, hfront⟩ := harrives.exists_front
    have hstep := (hkeeps.of_split hfront).imp_right And.left
    exact (hvisited.models_of_suspended hstep (ih (List.cons_ne_nil _ _))).seed (hdesired _)

/-- The model of a suspended operation has the property that the hooks keep. -/
theorem Ends.models {n : Nat} {delay : UInt64} {r : ProgressRecord M} {journal : Journal}
    (hends : run.Ends n (.ok (.inProgress delay r)) journal) : r.Models Q := by
  generalize hresult : (.ok (.inProgress delay r) : Except Defect (Outcome M)) = result at hends
  cases hends with
  | finished =>
    rw [report] at hresult
    cases hterminal : run.chain.config.terminal <;> simp [hterminal] at hresult
  | stopped harrives _ hrun =>
    obtain rfl := Except.ok.inj hresult
    obtain ⟨gained, _, hvisited⟩ := visited_of_run hrun
    obtain ⟨front, hfront⟩ := harrives.exists_front
    have hstep := (hkeeps.of_split hfront).imp_right And.left
    exact hvisited.models_of_suspended hstep
      (harrives.models hkeeps hdesired hstart (List.cons_ne_nil _ _))
  | broke => cases hresult

end Run

end Lifecycle
