import Lifecycle.Proofs.Visit

/-!
# Walks over the steps of a chain

`Walked` lists how a walk goes: each step is passed over, is completed by a visit, or
ends the pass. Every walk goes so (`exists_walked`); what a pass does is therefore
settled by induction on `Walked`, with one case for each thing that can become of a step.
-/

namespace Lifecycle

namespace Chain

variable {M : Type}

/-- Whether a walk takes a step up: the step is not complete, and it applies. -/
def takesUp (target : Target M) (step : Step M) (r : ProgressRecord M) : Bool :=
  !r.isDone step.name && step.shouldRun target r

/-- A step is taken up when it is not complete and applies. -/
theorem takesUp_iff {target : Target M} {step : Step M} {r : ProgressRecord M} :
    takesUp target step r = true ↔
      r.isDone step.name = false ∧ step.shouldRun target r = true := by
  rw [takesUp, Bool.and_eq_true, Bool.not_eq_true']

/-- What a chain reports when it has walked over all its steps. -/
def report (config : ChainConfig) (r : ProgressRecord M) : Outcome M :=
  match config.terminal with
  | .model => .success r.model
  | .deleted => .success none

variable (faults : FaultTable) (config : ChainConfig) (remote : Remote) (target : Target M)

/-- How a walk over steps goes, on top of a journal: its result and the entries that it adds. -/
inductive Walked : List (Step M) → ProgressRecord M → Journal → Except Defect (Outcome M) →
    Journal → Prop
  /-- No step is left. -/
  | finished {r : ProgressRecord M} {past : Journal} :
      Walked [] r past (.ok (report config r)) []
  /-- A step is passed over. -/
  | passedOver {step : Step M} {steps : List (Step M)} {r : ProgressRecord M} {past gained : Journal}
      {result : Except Defect (Outcome M)} (hover : takesUp target step r = false)
      (hrest : Walked steps r past result gained) : Walked (step :: steps) r past result gained
  /-- A visit completes a step. -/
  | completed {step : Step M} {steps : List (Step M)} {r r' : ProgressRecord M}
      {past first rest : Journal} {result : Except Defect (Outcome M)}
      (htakes : takesUp target step r = true)
      (hvisit : (visit faults config target step r).run remote past = (.ok (.ok r'), past ++ first))
      (hrest : Walked steps r' (past ++ first) result rest) :
      Walked (step :: steps) r past result (first ++ rest)
  /-- A visit to a step ends the pass. -/
  | stopped {step : Step M} {steps : List (Step M)} {r : ProgressRecord M} {past gained : Journal}
      {outcome : Outcome M} (htakes : takesUp target step r = true)
      (hvisit : (visit faults config target step r).run remote past =
        (.ok (.error outcome), past ++ gained)) :
      Walked (step :: steps) r past (.ok outcome) gained
  /-- A visit to a step runs into a defect. -/
  | broke {step : Step M} {steps : List (Step M)} {r : ProgressRecord M} {past gained : Journal}
      {defect : Defect} (htakes : takesUp target step r = true)
      (hvisit : (visit faults config target step r).run remote past =
        (.error defect, past ++ gained)) :
      Walked (step :: steps) r past (.error defect) gained

variable {faults config remote target} in
/-- The visits of a walk go the ways that `Visited` lists. -/
theorem visited_of_run_append {step : Step M} {r : ProgressRecord M} {past gained : Journal}
    {result : Except Defect (Except (Outcome M) (ProgressRecord M))}
    (hvisit : (visit faults config target step r).run remote past = (result, past ++ gained)) :
    Visited faults config remote target step r past result gained := by
  obtain ⟨gained', hgained, hvisited⟩ := visited_of_run hvisit
  rwa [List.append_cancel_left hgained]

/-- A step that is not taken up is walked past. -/
theorem walk_of_passed {step : Step M} {r : ProgressRecord M} (h : takesUp target step r = false)
    (steps : List (Step M)) :
    walk faults config target (step :: steps) r = walk faults config target steps r := by
  have hover : (r.isDone step.name || !step.shouldRun target r) = true := by
    simpa [takesUp, ← Bool.not_eq_false] using h
  rw [walk, if_pos hover]

/-- A step that is taken up is visited. -/
theorem walk_of_takesUp {step : Step M} {r : ProgressRecord M} (h : takesUp target step r = true)
    (steps : List (Step M)) :
    walk faults config target (step :: steps) r =
      visit faults config target step r >>= fun result =>
        match result with
        | .error outcome => return outcome
        | .ok r => walk faults config target steps r := by
  have hopen : ¬(r.isDone step.name || !step.shouldRun target r) = true := by
    simpa [takesUp] using h
  exact if_neg hopen

/-- Every walk goes one of the ways listed. -/
theorem exists_walked (steps : List (Step M)) (r : ProgressRecord M) (past : Journal) :
    ∃ result gained, (walk faults config target steps r).run remote past =
        (result, past ++ gained) ∧
      Walked faults config remote target steps r past result gained := by
  induction steps generalizing r past with
  | nil =>
    refine ⟨.ok (report config r), [], ?_, .finished⟩
    rw [walk, report]
    cases config.terminal <;> simp
  | cons step steps ih =>
    cases htakes : takesUp target step r with
    | false =>
      obtain ⟨result, gained, hrun, hwalked⟩ := ih r past
      refine ⟨result, gained, ?_, .passedOver htakes hwalked⟩
      rw [walk_of_passed faults config target htakes, hrun]
    | true =>
      obtain ⟨result, first, hvisit, _⟩ := exists_visited faults config remote target step r past
      rcases result with defect | outcome | r'
      · refine ⟨_, first, ?_, .broke htakes hvisit⟩
        rw [walk_of_takesUp faults config target htakes, Session.run_bind, hvisit]
      · refine ⟨_, first, ?_, .stopped htakes hvisit⟩
        rw [walk_of_takesUp faults config target htakes, Session.run_bind, hvisit]
        rfl
      · obtain ⟨result, rest, hrun, hwalked⟩ := ih r' (past ++ first)
        refine ⟨result, first ++ rest, ?_, .completed htakes hvisit hwalked⟩
        rw [walk_of_takesUp faults config target htakes, Session.run_bind, hvisit]
        simpa using hrun

/-- A pass over a chain is a walk over its steps. -/
theorem exists_walked_of_pass {c : Chain M} {r : ProgressRecord M} {past journal : Journal}
    {result : Except Defect (Outcome M)}
    (h : (c.pass faults target r).run remote past = (result, journal)) :
    ∃ gained, journal = past ++ gained ∧
      Walked faults c.config remote target c.steps (seed target r) past result gained := by
  obtain ⟨result', gained, hrun, hwalked⟩ :=
    exists_walked faults c.config remote target c.steps (seed target r) past
  obtain ⟨rfl, rfl⟩ := Prod.mk.inj (h.symm.trans hrun)
  exact ⟨gained, rfl, hwalked⟩

end Chain

end Lifecycle
