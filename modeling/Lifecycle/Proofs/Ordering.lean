import Lifecycle.Proofs.Calls
import Lifecycle.Proofs.Completion

/-!
# The order in which steps are carried out

Every pass walks over the chain from the top. When it gets to a step, the steps
before it that apply are marked as complete (`Arrives.isDone_of_mem_front`), and the
marks of completion are set in the order of the chain (`Arrives.frontier`), wherever
the passes before were suspended. So no call is made for a step before all earlier
steps that apply are complete, and a run that succeeds has completed each step that
applies once.
-/

namespace Lifecycle

open Json ProgressRecord Chain

variable {M : Type}

namespace Chain

variable {c : Chain M} {step : Step M} {front back : List (Step M)}

/-- A step is not among those before or after it. -/
theorem NamesApart.notMem (h : c.NamesApart) (hsplit : c.steps = front ++ step :: back) :
    step ∉ front ∧ step ∉ back := by
  have hnodup : (front ++ step :: back).Nodup := hsplit ▸ List.Nodup.of_map _ h.distinct
  have hnot := (List.nodup_cons.mp (List.nodup_middle.mp hnodup)).1
  rwa [List.mem_append, not_or] at hnot

/-- A step has one place in its chain. -/
theorem NamesApart.front_eq (h : c.NamesApart) {front' back' : List (Step M)}
    (hsplit : c.steps = front ++ step :: back) (hsplit' : c.steps = front' ++ step :: back') :
    front = front' := by
  obtain ⟨hfront, hback⟩ := h.notMem hsplit
  exact ((List.append_cons_inj_of_notMem hfront hback).mp (hsplit.symm.trans hsplit')).1

/-- Another step has another name. -/
theorem NamesApart.name_ne (h : c.NamesApart) (hsplit : c.steps = front ++ step :: back)
    {other : Step M} (hother : other ∈ front ∨ other ∈ back) : other.name ≠ step.name := by
  intro hname
  have hmem : other ∈ c.steps := by
    rw [hsplit, List.mem_append, List.mem_cons]
    exact hother.imp_right .inr
  obtain rfl := h.eq_of_name_eq hmem (by simp [hsplit]) hname
  obtain ⟨hfront, hback⟩ := h.notMem hsplit
  exact hother.elim hfront hback

end Chain

/-- A visit never ends an operation with success. -/
theorem Chain.Visited.ne_success {faults : FaultTable} {config : ChainConfig} {remote : Remote}
    {target : Target M} {step : Step M} {r : ProgressRecord M} {past gained : Journal}
    {outcome : Outcome M}
    (h : Visited faults config remote target step r past (.ok (.error outcome)) gained)
    (model : Option M) : outcome ≠ .success model := by
  have hsuspended : ∀ {cause policy counter r gained} {exhausted outcome : Outcome M},
      Suspended step cause policy counter r exhausted outcome gained →
        exhausted ≠ .success model → outcome ≠ .success model := by
    intro cause policy counter r gained exhausted outcome h hexhausted
    cases h with
    | postponed => exact nofun
    | spent => exact hexhausted
  cases h with
  | halted _ hissued =>
    cases hissued with
    | retried _ _ _ _ hretried => exact hsuspended hretried nofun
    | refused => exact nofun
  | unstable _ hstabilized =>
    cases hstabilized with
    | refused => exact nofun
    | pending _ _ _ hpending => exact hsuspended hpending nofun
  | shown _ _ hcompleted =>
    cases hcompleted
    exact nofun

namespace Run

/-- The verdict on whether a step applies never changes in a run, and `gate` is the verdict. -/
def Gated (run : Run M) (gate : Step M → Bool) : Prop :=
  ∀ n step steps r past, run.Arrives n (step :: steps) r past → r.isDone step.name = false →
    step.shouldRun (run.targets n) r = gate step

/-- The marks of completion are set in the order of the chain, and the journal says so. -/
structure Frontier (run : Run M) (gate : Step M → Bool) (r : ProgressRecord M) (past : Journal) :
    Prop where
  /-- Only steps that apply are complete. -/
  gated : ∀ step ∈ run.chain.steps, r.isDone step.name = true → gate step = true
  /-- Before a complete step all steps that apply are complete. -/
  ordered : ∀ front step back, run.chain.steps = front ++ step :: back →
    r.isDone step.name = true → ∀ earlier ∈ front, gate earlier = true →
      r.isDone earlier.name = true
  /-- The journal names the complete steps in the order of the chain. -/
  finished : past.finished = (run.chain.steps.filter (r.isDone ·.name)).map (·.name)

variable {run : Run M} {gate : Step M → Bool} {n : Nat} {steps : List (Step M)}
  {r : ProgressRecord M} {past : Journal}

/-- What is before the next steps is what is before a step, and the step. -/
theorem Arrives.exists_front_of_cons {step : Step M} {front : List (Step M)}
    (harrives : run.Arrives n (step :: steps) r past) (hfront : run.chain.steps = front ++ steps) :
    ∃ before, run.chain.steps = before ++ step :: steps ∧ front = before ++ [step] := by
  obtain ⟨before, hbefore⟩ := harrives.exists_front
  refine ⟨before, hbefore, ?_⟩
  apply List.append_cancel_right
  rw [← hfront, hbefore, List.append_assoc, List.singleton_append]

/-- What holds when a step is passed over or completed, and is kept when another one is completed,
holds once a pass is past the step. -/
theorem Arrives.of_mem_front {I : ProgressRecord M → Prop} {earlier : Step M}
    (hpassed : ∀ {n steps r past}, run.Arrives n (earlier :: steps) r past →
      takesUp (run.targets n) earlier r = false → I r)
    (hcompleted : ∀ {n steps r r' past gained}, run.Arrives n (earlier :: steps) r past →
      run.Visits n earlier r past (.ok (.ok r')) gained → I r')
    (hkept : ∀ {n step steps r r' past gained}, run.Arrives n (step :: steps) r past →
      run.Visits n step r past (.ok (.ok r')) gained → I r → I r')
    (harrives : run.Arrives n steps r past) {front : List (Step M)}
    (hfront : run.chain.steps = front ++ steps) (hmem : earlier ∈ front) : I r := by
  induction harrives generalizing front with
  | start =>
    have hnil : front = [] := List.append_left_eq_self.mp hfront.symm
    simp [hnil] at hmem
  | @passedOver n step steps r past harrives hover ih =>
    obtain ⟨before, hbefore, rfl⟩ := harrives.exists_front_of_cons hfront
    rcases List.mem_append.mp hmem with hmem | hmem
    · exact ih hbefore hmem
    · obtain rfl := List.mem_singleton.mp hmem
      exact hpassed harrives hover
  | @completed n step steps r r' past journal harrives _ hrun ih =>
    obtain ⟨gained, rfl, hvisited⟩ := visited_of_run hrun
    obtain ⟨before, hbefore, rfl⟩ := harrives.exists_front_of_cons hfront
    rcases List.mem_append.mp hmem with hmem | hmem
    · exact hkept harrives hvisited (ih hbefore hmem)
    · obtain rfl := List.mem_singleton.mp hmem
      exact hcompleted harrives hvisited
  | resumed =>
    have hnil : front = [] := List.append_left_eq_self.mp hfront.symm
    simp [hnil] at hmem

/-- When a pass is past a step whose verdict is always that it applies, the step is complete. -/
theorem Arrives.isDone_of_mem_front (hkeeps : ∀ step ∈ run.chain.steps, step.KeepsMarks)
    {earlier : Step M}
    (hopen : ∀ n steps r past, run.Arrives n (earlier :: steps) r past →
      r.isDone earlier.name = false → earlier.shouldRun (run.targets n) r = true)
    (harrives : run.Arrives n steps r past) {front : List (Step M)}
    (hfront : run.chain.steps = front ++ steps) (hmem : earlier ∈ front) :
    r.isDone earlier.name = true := by
  refine harrives.of_mem_front (I := fun r => r.isDone earlier.name = true) ?_ ?_ ?_ hfront hmem
  · intro n steps r past harrives hover
    by_contra hdone
    rw [Bool.not_eq_true] at hdone
    have hrun := hopen _ _ _ _ harrives hdone
    simp [takesUp, hdone, hrun] at hover
  · intro n steps r r' past gained harrives hvisited
    exact hvisited.isDone_of_completed (hkeeps earlier harrives.mem)
  · intro n step steps r r' past gained harrives hvisited hdone
    exact (hvisited.marks (hkeeps step harrives.mem) rfl).kept _ hdone

/-- A pass that succeeds has walked over the chain. -/
theorem Ends.exists_arrives_of_success {model : Option M} {journal : Journal}
    (hends : run.Ends n (.ok (.success model)) journal) : ∃ r, run.Arrives n [] r journal := by
  generalize hresult : (.ok (.success model) : Except Defect (Outcome M)) = result at hends
  cases hends with
  | @finished r _ harrives => exact ⟨r, harrives⟩
  | stopped _ _ hrun =>
    obtain ⟨gained, rfl, hvisited⟩ := visited_of_run hrun
    exact absurd (Except.ok.inj hresult).symm (hvisited.ne_success model)
  | broke => cases hresult

/-- Only the marks of completion of the chain's steps matter. -/
theorem Frontier.congr {r' : ProgressRecord M} {past' : Journal} (h : run.Frontier gate r past)
    (hdone : ∀ step ∈ run.chain.steps, r'.isDone step.name = r.isDone step.name)
    (hfinished : past'.finished = past.finished) : run.Frontier gate r' past' := by
  refine ⟨?_, ?_, ?_⟩
  · intro step hstep hset
    exact h.gated step hstep (hdone step hstep ▸ hset)
  · intro front step back hsplit hset earlier hmem hgate
    rw [hdone step (by simp [hsplit])] at hset
    rw [hdone earlier (by simp [hsplit, hmem])]
    exact h.ordered front step back hsplit hset earlier hmem hgate
  · rw [hfinished, h.finished, List.filter_congr fun step hstep => (hdone step hstep).symm]

/-- Nothing after a step that applies and is not complete is complete, for else the step would
be. -/
theorem Frontier.filter_eq_nil {step : Step M} {front back : List (Step M)}
    (h : run.Frontier gate r past) (hsplit : run.chain.steps = front ++ step :: back)
    (hgate : gate step = true) (hnew : r.isDone step.name = false) :
    back.filter (r.isDone ·.name) = [] := by
  rw [List.filter_eq_nil_iff]
  intro later hmem hdone
  obtain ⟨middle, rest, rfl⟩ := List.append_of_mem hmem
  have hstep := h.ordered (front ++ step :: middle) later rest (by simp [hsplit]) hdone step
    (by simp) hgate
  simp [hnew] at hstep

section Gated

variable (hnames : run.chain.NamesApart) (hkeeps : ∀ step ∈ run.chain.steps, step.KeepsMarks)
  (hgated : run.Gated gate)
include hkeeps hgated

/-- When a pass gets to a step, the steps before it that apply are complete. -/
theorem Arrives.isDone_of_gated (harrives : run.Arrives n steps r past) {front : List (Step M)}
    (hfront : run.chain.steps = front ++ steps) :
    ∀ earlier ∈ front, gate earlier = true → r.isDone earlier.name = true := by
  intro earlier hmem hgate
  refine harrives.isDone_of_mem_front hkeeps ?_ hfront hmem
  intro n steps r past harrives hdone
  rw [hgated n earlier steps r past harrives hdone, hgate]

include hnames

/-- Completing a step that applies keeps the marks of completion in the order of the chain. -/
theorem Frontier.completed {step : Step M} {r' : ProgressRecord M} {gained : Journal}
    (harrives : run.Arrives n (step :: steps) r past) (hnew : r.isDone step.name = false)
    (hgate : gate step = true) (hset : r'.isDone step.name = true)
    (hother : ∀ other ∈ run.chain.steps, other.name ≠ step.name →
      r'.isDone other.name = r.isDone other.name)
    (hfinished : gained.finished = [step.name]) (h : run.Frontier gate r past) :
    run.Frontier gate r' (past ++ gained) := by
  have hkept : ∀ other ∈ run.chain.steps, r.isDone other.name = true →
      r'.isDone other.name = true := by
    intro other hmem hdone
    by_cases hname : other.name = step.name
    · rw [hname, hset]
    · rw [hother other hmem hname, hdone]
  obtain ⟨before, hbefore⟩ := harrives.exists_front
  refine ⟨?_, ?_, ?_⟩
  · intro other hmem hdone
    by_cases hname : other.name = step.name
    · rw [hnames.eq_of_name_eq hmem harrives.mem hname, hgate]
    · exact h.gated other hmem (hother other hmem hname ▸ hdone)
  · intro front other back hsplit hdone earlier hmem hearlier
    have hin : earlier ∈ run.chain.steps := by simp [hsplit, hmem]
    have hotherIn : other ∈ run.chain.steps := by simp [hsplit]
    apply hkept earlier hin
    by_cases hname : other.name = step.name
    · obtain rfl := hnames.eq_of_name_eq hotherIn harrives.mem hname
      obtain rfl := hnames.front_eq hsplit hbefore
      exact harrives.isDone_of_gated hkeeps hgated hbefore earlier hmem hearlier
    · rw [hother other hotherIn hname] at hdone
      exact h.ordered front other back hsplit hdone earlier hmem hearlier
  · have hfront : before.filter (r'.isDone ·.name) = before.filter (r.isDone ·.name) := by
      refine List.filter_congr ?_
      intro other hmem
      exact hother other (by simp [hbefore, hmem]) (hnames.name_ne hbefore (.inl hmem))
    have hold := h.filter_eq_nil hbefore hgate hnew
    have hback : steps.filter (r'.isDone ·.name) = [] := by
      rw [← hold]
      refine List.filter_congr ?_
      intro other hmem
      exact hother other (by simp [hbefore, hmem]) (hnames.name_ne hbefore (.inr hmem))
    rw [Journal.finished_append, h.finished, hfinished, hbefore]
    simp [hfront, hold, hback, hset, hnew]

/-- Wherever a run gets to, the marks of completion are set in the order of the chain. -/
theorem Arrives.frontier (hstart : run.start = .empty) (harrives : run.Arrives n steps r past) :
    run.Frontier gate r past := by
  refine harrives.invariant ?_ ?_ ?_
  · have hnone : ∀ name, (seed (run.targets 0) run.start).isDone name = false := by
      intro name
      rw [isDone, flag_seed, hstart, flag_empty]
    refine ⟨?_, ?_, ?_⟩
    · intro step _ hset
      simp [hnone] at hset
    · intro front step back _ hset
      simp [hnone] at hset
    · simp [hnone]
  · intro n r past h
    exact h.congr (fun step _ => congrFun (flag_seed _ _) _) rfl
  · intro n step steps r r' past result gained harrives htakes hvisited hleft ih
    have hstep := hkeeps step harrives.mem
    have hother : ∀ other ∈ run.chain.steps, other.name ≠ step.name →
        r'.isDone other.name = r.isDone other.name := fun other hmem hne =>
      (hvisited.marks hstep hleft).flag_eq (hnames.done_ne hmem harrives.mem hne)
    rw [takesUp_iff] at htakes
    obtain ⟨hnew, hrun⟩ := htakes
    rcases result with defect | outcome | r''
    · simp [recordLeft?] at hleft
    · refine ih.congr ?_ (by simp [hvisited.finished])
      intro other hmem
      by_cases hname : other.name = step.name
      · rw [hname]
        exact hvisited.isDone_eq_of_suspended hstep hleft
      · exact hother other hmem hname
    · obtain rfl := Option.some.inj hleft
      have hgate : gate step = true := (hgated n step steps r past harrives hnew).symm.trans hrun
      exact ih.completed hnames hkeeps hgated harrives hnew hgate
        (hvisited.isDone_of_completed hstep) hother hvisited.finished

/-- A call is made for a step that applies, and when all steps before it that apply are complete. -/
theorem throughout_callsFor (hstart : run.start = .empty) (limit : Nat) :
    Journal.Throughout (fun before entry => entry.isCall = true →
      ∃ front step back, run.chain.steps = front ++ step :: back ∧
        entry.callsFor step.name = true ∧ gate step = true ∧
        ∀ earlier ∈ front, gate earlier = true → run.Completes earlier before)
      (run.journal limit) := by
  refine throughout_journal ?_ limit
  intro n step steps r past result gained harrives htakes hvisited before entry after hsplit hcall
  obtain ⟨front, hfront⟩ := harrives.exists_front
  rw [takesUp_iff] at htakes
  refine ⟨front, step, steps, hfront, ?_, ?_, ?_⟩
  · exact (hvisited.calls (by simp [hsplit]) hcall).callsFor
  · exact (hgated n step steps r past harrives htakes.1).symm.trans htakes.2
  · intro earlier hmem hearlier
    have hdone := harrives.isDone_of_gated hkeeps hgated hfront earlier hmem hearlier
    have hin : earlier ∈ run.chain.steps := by simp [hfront, hmem]
    exact (harrives.completes_of_isDone hnames hkeeps hstart hin hdone).append before

/-- A pass that succeeds has walked over the chain, and all steps that apply are complete. -/
theorem Ends.finished_of_success (hstart : run.start = .empty) {model : Option M}
    {journal : Journal} (hends : run.Ends n (.ok (.success model)) journal) :
    journal.finished = (run.chain.steps.filter gate).map (·.name) ∧
      ∀ step ∈ run.chain.steps, gate step = true → run.Completes step journal := by
  obtain ⟨r, harrives⟩ := hends.exists_arrives_of_success
  have hdone : ∀ step ∈ run.chain.steps, gate step = true → r.isDone step.name = true :=
    harrives.isDone_of_gated hkeeps hgated (List.append_nil _).symm
  have hfrontier := harrives.frontier hnames hkeeps hgated hstart
  constructor
  · rw [hfrontier.finished]
    congr 1
    refine List.filter_congr ?_
    intro step hmem
    rw [Bool.eq_iff_iff]
    exact ⟨hfrontier.gated step hmem, hdone step hmem⟩
  · intro step hmem hgate
    exact harrives.completes_of_isDone hnames hkeeps hstart hmem (hdone step hmem hgate)

end Gated

/-- In a run from the empty record in which no verdict on whether a step applies changes, each call
is made for one of the steps; a step that does not apply causes none, and a step that applies
causes one only when all steps before it that apply are complete. When the run succeeds, the steps
that apply are complete, each by the journal and each once, in the order of the chain. -/
theorem carried_out_in_order (run : Run M) (gate : Step M → Bool)
    (hnames : run.chain.NamesApart) (hkeeps : ∀ step ∈ run.chain.steps, step.KeepsMarks)
    (hstart : run.start = .empty) (hgated : run.Gated gate) (limit : Nat) :
    (∀ entry ∈ run.journal limit, entry.isCall = true →
      ∃ step ∈ run.chain.steps, entry.callsFor step.name = true) ∧
    (∀ front step back, run.chain.steps = front ++ step :: back →
      Journal.Throughout (fun before entry => entry.callsFor step.name = true → gate step = true ∧
        ∀ earlier ∈ front, gate earlier = true → run.Completes earlier before)
        (run.journal limit)) ∧
    (∀ before report model, run.passes limit = before ++ [report] →
      report.result = .ok (.success model) →
      (run.journal limit).finished = (run.chain.steps.filter gate).map (·.name) ∧
        ∀ step ∈ run.chain.steps, gate step = true → run.Completes step (run.journal limit)) := by
  have hcalls := throughout_callsFor hnames hkeeps hgated hstart limit
  refine ⟨?_, ?_, ?_⟩
  · intro entry hentry hcall
    obtain ⟨before, after, hsplit⟩ := List.append_of_mem hentry
    obtain ⟨front, step, back, hsteps, hfor, _, _⟩ := hcalls before entry after hsplit hcall
    exact ⟨step, by simp [hsteps], hfor⟩
  · intro front step back hsteps before entry after hsplit hfor
    obtain ⟨front', other, back', hsteps', hother, hgate, hearlier⟩ :=
      hcalls before entry after hsplit (Entry.isCall_of_callsFor hfor)
    have hname := Entry.name_eq_of_callsFor hfor hother
    obtain rfl := hnames.eq_of_name_eq (by simp [hsteps]) (by simp [hsteps']) hname
    obtain rfl := hnames.front_eq hsteps hsteps'
    exact ⟨hgate, hearlier⟩
  · intro before report model hpasses hsuccess
    have hends := ends_of_passes hpasses
    have hjournal : run.journal limit = journalOf before ++ report.journal := by
      simp [journal, hpasses, journalOf]
    rw [hsuccess] at hends
    rw [hjournal]
    exact hends.finished_of_success hnames hkeeps hgated hstart

/-- A run over three steps: one whose effect is looked for twice, one that does not apply, and one
whose request meets a fault that it can live with. -/
def threeSteps : Run Unit where
  chain :=
    { operation := "update"
      config := { stabilization := .constant 30 60, throttling := .constant 5 60 }
      steps :=
        [ { name := "modify"
            request := fun _ _ => .ok ⟨"Modify", .null⟩
            stabilization := fun _ _ => .ok (some { probe := .describe "it", minObservations := 2 }) },
          { name := "tag"
            shouldRun := fun _ _ => false
            request := fun _ _ => .ok ⟨"Tag", .null⟩ },
          { name := "detach"
            request := fun _ _ => .ok ⟨"Detach", .null⟩
            suppress := fun fault _ => fault.isNotFound } ] }
  faults := FaultTable.common
  remote _ call :=
    match call with
    | .invoke ⟨"Detach", _⟩ => .error ⟨"Gone", "Nothing is attached", 404⟩
    | _ => .ok .null
  targets _ := { desired := () }
  start := .empty

/-- The run over three steps completes the two that apply, in order. -/
theorem threeSteps_in_order :
    threeSteps.chain.NamesApart ∧ (∀ step ∈ threeSteps.chain.steps, step.KeepsMarks) ∧
      threeSteps.Gated (·.name ≠ "tag") ∧
      (threeSteps.journal 5).finished = ["modify", "detach"] ∧
      (∀ entry ∈ threeSteps.journal 5, entry.callsFor "tag" = false) := by
  have hnames : threeSteps.chain.NamesApart := by
    refine ⟨by decide +kernel, by decide +kernel, by decide +kernel⟩
  have hkeeps : ∀ step ∈ threeSteps.chain.steps, step.KeepsMarks := by
    intro step hstep
    simp only [threeSteps, List.mem_cons, List.not_mem_nil, or_false] at hstep
    rcases hstep with rfl | rfl | rfl <;> exact ⟨fun _ _ => rfl, fun _ _ => rfl⟩
  have hgated : threeSteps.Gated (·.name ≠ "tag") := by
    intro n step steps r past harrives _
    have hstep := harrives.mem
    simp only [threeSteps, List.mem_cons, List.not_mem_nil, or_false] at hstep
    rcases hstep with rfl | rfl | rfl <;> rfl
  obtain ⟨_, hcalls, hsuccess⟩ :=
    carried_out_in_order threeSteps _ hnames hkeeps rfl hgated 5
  refine ⟨hnames, hkeeps, hgated, ?_, ?_⟩
  · obtain ⟨before, report, model, hpasses, hresult⟩ : ∃ before report model,
        threeSteps.passes 5 = before ++ [report] ∧ report.result = .ok (.success model) :=
      ⟨[_], _, _, rfl, rfl⟩
    exact (hsuccess before report model hpasses hresult).1
  · intro entry hentry
    obtain ⟨before, after, hsplit⟩ := List.append_of_mem hentry
    by_contra hcall
    rw [Bool.not_eq_false] at hcall
    have hgate := (hcalls [_] _ [_] rfl before entry after hsplit hcall).1
    exact absurd hgate (by decide +kernel)

end Run

end Lifecycle
