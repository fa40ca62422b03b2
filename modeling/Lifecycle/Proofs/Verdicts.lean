import Lifecycle.Proofs.Ordering
import Mathlib.Logic.Relation

/-!
# Verdicts of gates over a run

A run goes on from each position in one way at most (`Run.goes_unique`), so of any two
positions that it gets to, one leads to the other (`Run.Arrives.leads_or_leads`). To
show that a gate has one verdict over the whole run it is enough to look ahead from a
position at which the step is judged (`Run.exists_verdict`). Gates with one verdict each
never skip a step that has caused a call, nor the other way round
(`Run.stableGates_of_verdicts`).
-/

namespace Lifecycle

open Json ProgressRecord Chain

variable {M : Type}

/-- Where a run may have got to. -/
structure Position (M : Type) where
  /-- The pass, counted from zero. -/
  pass : Nat
  /-- The steps that the pass has left. -/
  left : List (Step M)
  /-- The record by then. -/
  record : ProgressRecord M
  /-- The journal by then. -/
  journal : Journal

/-- Whether the step applies is a matter of the target alone. -/
def Step.FixedGate (step : Step M) : Prop :=
  ∀ target r r', step.shouldRun target r' = step.shouldRun target r

namespace Run

/-- How a run goes on from a position. -/
inductive Goes (run : Run M) : Position M → Position M → Prop
  /-- A step is passed over. -/
  | passedOver {n : Nat} {step : Step M} {steps : List (Step M)} {r : ProgressRecord M}
      {past : Journal} (hover : takesUp (run.targets n) step r = false) :
      Goes run ⟨n, step :: steps, r, past⟩ ⟨n, steps, r, past⟩
  /-- A visit completes a step. -/
  | completed {n : Nat} {step : Step M} {steps : List (Step M)} {r r' : ProgressRecord M}
      {past journal : Journal} (htakes : takesUp (run.targets n) step r = true)
      (hvisit : run.visit n step r past = (.ok (.ok r'), journal)) :
      Goes run ⟨n, step :: steps, r, past⟩ ⟨n, steps, r', journal⟩
  /-- A visit suspends the operation, and another pass takes it up. -/
  | resumed {n : Nat} {step : Step M} {steps : List (Step M)} {r r' : ProgressRecord M}
      {past journal : Journal} {delay : UInt64} (htakes : takesUp (run.targets n) step r = true)
      (hvisit : run.visit n step r past = (.ok (.error (.inProgress delay r')), journal)) :
      Goes run ⟨n, step :: steps, r, past⟩
        ⟨n + 1, run.chain.steps, seed (run.targets (n + 1)) r', journal⟩

/-- A run gets from one position to another. -/
abbrev Leads (run : Run M) : Position M → Position M → Prop := Relation.ReflTransGen run.Goes

/-- A run has got to a position. -/
abbrev IsAt (run : Run M) (p : Position M) : Prop := run.Arrives p.pass p.left p.record p.journal

variable {run : Run M} {p q : Position M} {n n' : Nat} {step : Step M}
  {steps steps' front : List (Step M)} {r r' : ProgressRecord M} {past past' : Journal}

/-- A run goes on from a position in one way at most. -/
theorem goes_unique (run : Run M) : Relator.RightUnique run.Goes := by
  intro p q q' hq hq'
  cases hq with
  | passedOver hover =>
    cases hq' with
    | passedOver => rfl
    | completed htakes => cases hover.symm.trans htakes
    | resumed htakes => cases hover.symm.trans htakes
  | completed htakes hvisit =>
    cases hq' with
    | passedOver hover => cases hover.symm.trans htakes
    | completed _ hvisit' =>
      cases hvisit.symm.trans hvisit'
      rfl
    | resumed _ hvisit' => cases hvisit.symm.trans hvisit'
  | resumed htakes hvisit =>
    cases hq' with
    | passedOver hover => cases hover.symm.trans htakes
    | completed _ hvisit' => cases hvisit.symm.trans hvisit'
    | resumed _ hvisit' =>
      cases hvisit.symm.trans hvisit'
      rfl

/-- A run gets to wherever it goes on to. -/
theorem Goes.isAt (h : run.Goes p q) (hp : run.IsAt p) : run.IsAt q := by
  cases h with
  | passedOver hover => exact .passedOver hp hover
  | completed htakes hvisit => exact .completed hp htakes hvisit
  | resumed htakes hvisit => exact .resumed hp htakes hvisit

/-- A run gets to wherever a position that it gets to leads. -/
theorem Leads.isAt (h : run.Leads p q) (hp : run.IsAt p) : run.IsAt q := by
  induction h with
  | refl => exact hp
  | tail _ hgoes ih => exact hgoes.isAt ih

/-- The beginning of a run leads to every position that it gets to. -/
theorem Arrives.leads (h : run.Arrives n steps r past) :
    run.Leads ⟨0, run.chain.steps, seed (run.targets 0) run.start, []⟩ ⟨n, steps, r, past⟩ := by
  induction h with
  | start => exact .refl
  | passedOver _ hover ih => exact ih.tail (.passedOver hover)
  | completed _ htakes hvisit ih => exact ih.tail (.completed htakes hvisit)
  | resumed _ htakes hvisit ih => exact ih.tail (.resumed htakes hvisit)

/-- Of two positions that a run gets to, one leads to the other. -/
theorem Arrives.leads_or_leads (h : run.Arrives n steps r past)
    (h' : run.Arrives n' steps' r' past') :
    run.Leads ⟨n, steps, r, past⟩ ⟨n', steps', r', past'⟩ ∨
      run.Leads ⟨n', steps', r', past'⟩ ⟨n, steps, r, past⟩ :=
  Relation.ReflTransGen.total_of_right_unique run.goes_unique h.leads h'.leads

/-- What every visit and the start of a pass keep is kept on the way from a position to another. -/
theorem Leads.kept {I : ProgressRecord M → Prop}
    (hseed : ∀ n r, I r → I (seed (run.targets n) r))
    (hvisit : ∀ {n step r r' past result gained}, step ∈ run.chain.steps →
      run.Visits n step r past result gained → recordLeft? result = some r' → I r → I r')
    (h : run.Leads p q) (hat : run.IsAt p) (hp : I p.record) : I q.record := by
  induction h with
  | refl => exact hp
  | tail hleads hgoes ih =>
    have hmid := Leads.isAt hleads hat
    cases hgoes with
    | passedOver => exact ih
    | completed _ hrun =>
      obtain ⟨gained, _, hvisited⟩ := visited_of_run hrun
      exact hvisit hmid.mem hvisited rfl ih
    | resumed _ hrun =>
      obtain ⟨gained, _, hvisited⟩ := visited_of_run hrun
      exact hseed _ _ (hvisit hmid.mem hvisited rfl ih)

/-- A step that is complete stays complete. -/
theorem Leads.isDone (hkeeps : ∀ step ∈ run.chain.steps, step.KeepsMarks) (h : run.Leads p q)
    (hat : run.IsAt p) {name : String} (hdone : p.record.isDone name = true) :
    q.record.isDone name = true := by
  refine h.kept (I := fun r => r.isDone name = true) ?_ ?_ hat hdone
  · intro n r hdone
    rwa [ProgressRecord.isDone, flag_seed]
  · intro n step r r' past result gained hstep hvisited hleft hdone
    exact (hvisited.marks (hkeeps step hstep) hleft).kept _ hdone

/-- Whenever a step that is not complete is judged, the verdict on whether it applies is this. -/
def Verdict (run : Run M) (step : Step M) (verdict : Bool) : Prop :=
  ∀ n steps r past, run.Arrives n (step :: steps) r past → r.isDone step.name = false →
    step.shouldRun (run.targets n) r = verdict

/-- A step has one verdict if no judgement leads to another one that differs. -/
theorem exists_verdict
    (hlater : ∀ {n n' steps steps' r r' past past'}, run.Arrives n (step :: steps) r past →
      run.Leads ⟨n, step :: steps, r, past⟩ ⟨n', step :: steps', r', past'⟩ →
      r.isDone step.name = false → r'.isDone step.name = false →
      step.shouldRun (run.targets n') r' = step.shouldRun (run.targets n) r) :
    ∃ verdict, run.Verdict step verdict := by
  by_cases hjudged : ∃ n steps r past, run.Arrives n (step :: steps) r past ∧
      r.isDone step.name = false
  · obtain ⟨n, steps, r, past, harrives, hopen⟩ := hjudged
    refine ⟨step.shouldRun (run.targets n) r, ?_⟩
    intro n' steps' r' past' harrives' hopen'
    rcases harrives.leads_or_leads harrives' with hleads | hleads
    · exact hlater harrives hleads hopen hopen'
    · exact (hlater harrives' hleads hopen' hopen).symm
  · refine ⟨false, ?_⟩
    intro n steps r past harrives hopen
    exact absurd ⟨n, steps, r, past, harrives, hopen⟩ hjudged

/-- A step that is judged by the target alone has one verdict, if all passes have one target. -/
theorem verdict_of_fixedGate (hfixed : step.FixedGate) {target : Target M}
    (htargets : ∀ n, run.targets n = target) (r : ProgressRecord M) :
    run.Verdict step (step.shouldRun target r) := by
  intro n steps r' past _ _
  rw [htargets]
  exact hfixed target r r'

/-- A step that is judged by the target alone and applies once always applies. -/
theorem verdict_of_shouldRun (hfixed : step.FixedGate) {target : Target M}
    (htargets : ∀ n, run.targets n = target) (happlies : step.shouldRun target .empty = true) :
    run.Verdict step true :=
  happlies ▸ verdict_of_fixedGate hfixed htargets .empty

/-- A step that is taken up has the verdict that it applies. -/
theorem Verdict.eq_true {verdict : Bool} (h : run.Verdict step verdict)
    (harrives : run.Arrives n (step :: steps) r past)
    (htakes : takesUp (run.targets n) step r = true) : verdict = true := by
  rw [takesUp_iff] at htakes
  exact (h _ _ _ _ harrives htakes.1).symm.trans htakes.2

/-- A step with one verdict is not taken up again once a pass is past it. -/
theorem Verdict.takesUp_eq_false (hkeeps : ∀ step ∈ run.chain.steps, step.KeepsMarks)
    {verdict : Bool} (h : run.Verdict step verdict) (hat : run.IsAt p)
    (hfront : run.chain.steps = front ++ p.left) (hmem : step ∈ front)
    (hleads : run.Leads p ⟨n, step :: steps, r, past⟩) :
    takesUp (run.targets n) step r = false := by
  by_contra htakes
  rw [Bool.not_eq_false] at htakes
  obtain rfl := h.eq_true (hleads.isAt hat) htakes
  have hdone := hat.isDone_of_mem_front hkeeps h hfront hmem
  have hlater : r.isDone step.name = true := hleads.isDone hkeeps hat hdone
  simp [takesUp, hlater] at htakes

/-- The gates of a run are stable: each step is judged alike throughout. -/
structure StableGates (run : Run M) : Prop where
  /-- Whenever a step that is not complete is judged, the verdict is the same. -/
  same : ∀ {n n' : Nat} {step step' : Step M} {steps steps' : List (Step M)}
    {r r' : ProgressRecord M} {past past' : Journal},
    run.Arrives n (step :: steps) r past → run.Arrives n' (step' :: steps') r' past' →
    step'.name = step.name → r.isDone step.name = false → r'.isDone step.name = false →
    step'.shouldRun (run.targets n') r' = step.shouldRun (run.targets n) r
  /-- A step that is skipped causes no call in any pass. -/
  skipped : ∀ {n : Nat} {step : Step M} {steps : List (Step M)} {r : ProgressRecord M}
    {past : Journal}, run.Arrives n (step :: steps) r past → r.isDone step.name = false →
    step.shouldRun (run.targets n) r = false →
    ∀ limit, ∀ entry ∈ run.journal limit, entry.callsFor step.name = false
  /-- A step that has caused a call is not skipped before it is complete. -/
  issued : ∀ {n : Nat} {step : Step M} {steps : List (Step M)} {r : ProgressRecord M}
    {past : Journal}, run.Arrives n (step :: steps) r past → r.isDone step.name = false →
    ∀ entry ∈ past, entry.callsFor step.name = true → step.shouldRun (run.targets n) r = true

/-- A visit makes calls for a step only if the verdict on the step is that it applies. -/
theorem Verdict.throughout (hnames : run.chain.NamesApart) (hstep : step ∈ run.chain.steps)
    {verdict : Bool} (h : run.Verdict step verdict) {other : Step M}
    {result : Except Defect (Except (Outcome M) (ProgressRecord M))} {gained : Journal}
    (harrives : run.Arrives n (other :: steps) r past)
    (htakes : takesUp (run.targets n) other r = true)
    (hvisited : run.Visits n other r past result gained) :
    Journal.Throughout (fun _ entry => entry.callsFor step.name = true → verdict = true)
      gained := by
  intro before entry after hsplit hfor
  have hmade := hvisited.calls (by simp [hsplit]) (Entry.isCall_of_callsFor hfor)
  have hname := Entry.name_eq_of_callsFor hmade.callsFor hfor
  obtain rfl := hnames.eq_of_name_eq harrives.mem hstep hname
  exact h.eq_true harrives htakes

/-- The gates of a run are stable if each step has one verdict. -/
theorem stableGates_of_verdicts (hnames : run.chain.NamesApart)
    (hverdicts : ∀ step ∈ run.chain.steps, ∃ verdict, run.Verdict step verdict) :
    run.StableGates := by
  refine ⟨?_, ?_, ?_⟩
  · intro n n' step step' steps steps' r r' past past' harrives harrives' hname hopen hopen'
    obtain rfl := hnames.eq_of_name_eq harrives'.mem harrives.mem hname
    obtain ⟨verdict, hverdict⟩ := hverdicts _ harrives.mem
    exact (hverdict _ _ _ _ harrives' hopen').trans (hverdict _ _ _ _ harrives hopen).symm
  · intro n step steps r past harrives hopen hskips limit entry hentry
    obtain ⟨verdict, hverdict⟩ := hverdicts step harrives.mem
    obtain rfl := (hverdict _ _ _ _ harrives hopen).symm.trans hskips
    obtain ⟨before, after, hsplit⟩ := List.append_of_mem hentry
    by_contra hcalls
    have hthroughout := run.throughout_journal
      (Q := fun _ entry => entry.callsFor step.name = true → false = true)
      (hverdict.throughout hnames harrives.mem) limit
    cases hthroughout before entry after hsplit ((Bool.not_eq_false _).mp hcalls)
  · intro n step steps r past harrives hopen entry hentry hcalls
    obtain ⟨verdict, hverdict⟩ := hverdicts step harrives.mem
    obtain ⟨before, after, hsplit⟩ := List.append_of_mem hentry
    rw [hverdict _ _ _ _ harrives hopen]
    have hthroughout := harrives.throughout
      (Q := fun _ entry => entry.callsFor step.name = true → verdict = true)
      (hverdict.throughout hnames harrives.mem)
    exact hthroughout before entry after hsplit hcalls

end Run

end Lifecycle
