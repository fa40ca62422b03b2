import Lifecycle.Proofs.Run

/-!
# What the hooks of steps keep

Apart from marks and counters, only the hooks of a step change the record. So a
property that marks and counters have no part in, and that the hooks of a step keep,
is kept by every visit to the step (`Visited.keeps`).
-/

namespace Lifecycle

open Json ProgressRecord

variable {M : Type}

/-- A property of records that marks and counters have no part in. -/
def ProgressRecord.Unmarked (I : ProgressRecord M → Prop) : Prop :=
  ∀ ⦃r r' : ProgressRecord M⦄, I r → r'.model = r.model → r'.identifiers = r.identifiers → I r'

/-- The hooks of the step keep a property of the record. -/
structure Step.Keeps (I : ProgressRecord M → Prop) (step : Step M) : Prop where
  /-- Whatever the answer to the request is. -/
  capture : ∀ response r, I r → I (step.capture response r)
  /-- Whatever the stable state is. -/
  onComplete : ∀ observed r, I r → I (step.onComplete observed r).2

namespace Chain

variable {I : ProgressRecord M → Prop} {faults : FaultTable} {config : ChainConfig}
  {remote : Remote} {target : Target M} {step : Step M} {r r' : ProgressRecord M}
  {past gained : Journal}

@[simp] theorem identifiers_seed (target : Target M) (r : ProgressRecord M) :
    (seed target r).identifiers = r.identifiers := by
  unfold seed
  cases r.model <;> rfl

/-- A request that is not accepted raises a counter at most. -/
theorem Issued.keeps {outcome : Outcome M} (hunmarked : Unmarked I)
    (h : Issued faults config remote target step r past (.ok (.halted outcome)) gained)
    (hleft : outcome.progress? = some r') (hr : I r) : I r' := by
  cases h with
  | retried _ _ _ _ hsuspended =>
    obtain ⟨_, _, rfl⟩ := hsuspended.eq_increment rfl hleft
    exact hunmarked hr rfl rfl
  | refused => cases hleft

/-- A request that is accepted leaves what the step keeps of the answer. -/
theorem Accepted.keeps (hunmarked : Unmarked I) (hkeeps : step.Keeps I)
    (h : Accepted faults config remote target step r past r' gained) (hr : I r) : I r' := by
  cases h with
  | earlier => exact hr
  | now _ hissued =>
    cases hissued with
    | accepted => exact hkeeps.capture _ _ (hunmarked hr rfl rfl)

/-- An effect that shows raises a counter at most. -/
theorem Stabilized.keeps {observed : Option Value} (hunmarked : Unmarked I)
    (h : Stabilized faults config remote target step r past (.ok (.ok (observed, r'))) gained)
    (hr : I r) : I r' := by
  cases h with
  | undeclared => exact hr
  | stable => exact hunmarked hr rfl rfl

/-- An effect that does not show changes counters at most. -/
theorem Stabilized.keeps_of_suspended {outcome : Outcome M} (hunmarked : Unmarked I)
    (h : Stabilized faults config remote target step r past (.ok (.error outcome)) gained)
    (hleft : outcome.progress? = some r') (hr : I r) : I r' := by
  cases h with
  | refused => cases hleft
  | @pending _ favourable _ _ _ _ _ _ hsuspended =>
    obtain ⟨_, _, rfl⟩ := hsuspended.eq_increment rfl hleft
    cases favourable <;> exact hunmarked hr rfl rfl

/-- Completing a step leaves what the step keeps of the stable state. -/
theorem Completed.keeps {observed : Option Value} {result : Except (Outcome M) (ProgressRecord M)}
    (hunmarked : Unmarked I) (hkeeps : step.Keeps I)
    (h : Completed step observed r result gained) (hleft : recordLeft? (.ok result) = some r')
    (hr : I r) : I r' := by
  have hhook := hkeeps.onComplete observed r hr
  cases h with
  | cooling hcompletion =>
    obtain rfl := Option.some.inj hleft
    rw [hcompletion] at hhook
    exact hunmarked hhook rfl rfl
  | advanced hcompletion =>
    obtain rfl := Option.some.inj hleft
    rw [hcompletion] at hhook
    exact hunmarked hhook rfl rfl

/-- A visit to a step keeps what the hooks of the step keep. -/
theorem Visited.keeps {result : Except Defect (Except (Outcome M) (ProgressRecord M))}
    (hunmarked : Unmarked I) (hkeeps : step.Keeps I)
    (h : Visited faults config remote target step r past result gained)
    (hleft : recordLeft? result = some r') (hr : I r) : I r' := by
  cases h with
  | unmade => cases hleft
  | halted _ hissued => exact hissued.keeps hunmarked hleft hr
  | tolerated =>
    obtain rfl := Option.some.inj hleft
    exact hunmarked hr rfl rfl
  | unseen => cases hleft
  | unstable haccepted hstabilized =>
    exact hstabilized.keeps_of_suspended hunmarked hleft (haccepted.keeps hunmarked hkeeps hr)
  | shown haccepted hstabilized hcompleted =>
    have hshown := hstabilized.keeps hunmarked (haccepted.keeps hunmarked hkeeps hr)
    exact hcompleted.keeps hunmarked hkeeps hleft hshown

end Chain

end Lifecycle
