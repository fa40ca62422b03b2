import Lifecycle.Proofs.Budget
import Lifecycle.Proofs.Looks
import Lifecycle.Proofs.Polling

/-!
# How an effect sets in over passes

Two counters say how far a step has got that waits for the effect of its request. One holds the
favourable verdicts in a row and starts over with an unfavourable one; the other one holds all looks
and never starts over, since it stands for the delays that are spent (`Chain.Watching`). A look is
answered by these two alone: it completes the step, suspends the operation or gives it up
(`Chain.Heeded`). So what a pass does is known from the verdicts up to it
(`Run.stabilization_heeds_verdicts`): a step that is favoured often enough in a row is complete even
when no time is left, and an unfavourable verdict just before makes it fail.
-/

namespace Lifecycle

open Json ProgressRecord

variable {M : Type}

namespace Chain

variable {faults : FaultTable} {config : ChainConfig} {remote : Remote} {target : Target M}
  {step : Step M} {least : UInt32} {policy : BackoffPolicy} {earlier : List Bool} {latest : Bool}
  {r r' : ProgressRecord M} {past gained : Journal}

/-- The request of a step is accepted, and after such verdicts on the looks for its effect the step
is still waiting for more of them. -/
structure Watching (step : Step M) (least : UInt32) (verdicts : List Bool) (r : ProgressRecord M) :
    Prop where
  /-- The request is accepted. -/
  invoked : r.isInvoked step.name = true
  /-- The step is not complete. -/
  opened : r.isDone step.name = false
  /-- The favourable verdicts at the end are counted. -/
  tally : (r.counter (Step.tallyKey step.name)).toNat = streak verdicts
  /-- All verdicts are counted, whatever they were. -/
  polls : (r.counter (Step.pollsKey step.name)).toNat = verdicts.length
  /-- There are not enough favourable ones at the end. -/
  short : streak verdicts < max least.toNat 1

/-- Whether a step is waiting is a matter of the marks and counters alone. -/
theorem Watching.congr (h : Watching step least earlier r) (hflags : r'.flag = r.flag)
    (hcounters : r'.counters = r.counters) : Watching step least earlier r' := by
  refine ⟨?_, ?_, ?_, ?_, h.short⟩
  · rw [isInvoked, hflags, ← isInvoked, h.invoked]
  · rw [isDone, hflags, ← isDone, h.opened]
  · rw [counter_congr hcounters, h.tally]
  · rw [counter_congr hcounters, h.polls]

/-- One more favourable verdict is counted. -/
theorem Watching.toNat_tally (h : Watching step least earlier r) :
    ((r.increment (Step.tallyKey step.name)).counter (Step.tallyKey step.name)).toNat =
      streak earlier + 1 :=
  counter_increment_of_short h.tally h.short

/-- A look that is not good enough is counted, and starts the row over when it is unfavourable. -/
theorem Watching.tally_pendingRecord (h : Watching step least earlier r) (latest : Bool) :
    ((pendingRecord step latest r).counter (Step.tallyKey step.name)).toNat =
      streak (earlier ++ [latest]) := by
  cases latest with
  | true => rw [streak_concat_true, pendingRecord, if_pos rfl, h.toNat_tally]
  | false =>
    rw [streak_concat_false, pendingRecord, if_neg Bool.false_ne_true, counter_resetCounter_self]
    rfl

/-- A look leaves the count of looks to the suspension. -/
theorem polls_pendingRecord (latest : Bool) :
    (pendingRecord step latest r).counter (Step.pollsKey step.name) =
      r.counter (Step.pollsKey step.name) := by
  have hne := Step.tallyKey_ne_pollsKey step.name step.name
  cases latest with
  | true => exact counter_increment_ne r hne
  | false => exact counter_resetCounter_ne r hne

/-- What comes of a visit to a step that waits, after earlier verdicts and the latest one. -/
inductive Heeded (step : Step M) (least : UInt32) (policy : BackoffPolicy) (earlier : List Bool)
    (latest : Bool) : Except Defect (Except (Outcome M) (ProgressRecord M)) → Prop
  /-- There are enough favourable verdicts in a row. -/
  | enough {r' : ProgressRecord M}
      (henough : max least.toNat 1 ≤ streak (earlier ++ [latest])) :
      Heeded step least policy earlier latest (.ok (.ok r'))
  /-- There are not, and another look follows after a delay. -/
  | postponed {delay : UInt64} {r' : ProgressRecord M}
      (hdelay : policy.nextDelay earlier.length = some delay)
      (hwatching : Watching step least (earlier ++ [latest]) r') :
      Heeded step least policy earlier latest (.ok (.error (.inProgress delay r')))
  /-- There are not, and no time is left for another look. -/
  | givenUp (hshort : streak (earlier ++ [latest]) < max least.toNat 1)
      (hspent : policy.nextDelay earlier.length = none) :
      Heeded step least policy earlier latest (.ok (.error (notStabilized step.name policy)))

/-- A look for the effect of the request of a step that waits. -/
theorem Stabilized.heeded {s : Stabilization}
    {seen : Except Defect (Except (Outcome M) (Option Value × ProgressRecord M))}
    (hwatching : Watching step s.minObservations earlier r)
    (hdeclared : step.stabilization target r = .ok (some s))
    (htimeout : (s.policy.getD config.stabilization).timeout.toNat < UInt32.size)
    (hverdict : ∃ observed, verdict faults remote target step s past = .ok (latest, observed))
    (h : Stabilized faults config remote target step r past seen gained) :
    Heeded step s.minObservations (s.policy.getD config.stabilization) earlier latest
      (seen.map (·.map (·.2))) := by
  obtain ⟨observed, hverdict⟩ := hverdict
  cases h with
  | defect hdefect => cases hdeclared.symm.trans hdefect
  | undeclared hnone => cases hdeclared.symm.trans hnone
  | refused hsome hrefused =>
    obtain rfl := Option.some.inj (Except.ok.inj (hdeclared.symm.trans hsome))
    cases hverdict.symm.trans hrefused
  | stable hsome hfound henough =>
    obtain rfl := Option.some.inj (Except.ok.inj (hdeclared.symm.trans hsome))
    obtain ⟨rfl, rfl⟩ := Prod.mk.inj (Except.ok.inj (hverdict.symm.trans hfound))
    rw [UInt32.le_iff_toNat_le, toNat_max, hwatching.toNat_tally, UInt32.toNat_one] at henough
    exact .enough (by rwa [streak_concat_true])
  | pending hsome hfound hless hsuspended =>
    obtain rfl := Option.some.inj (Except.ok.inj (hdeclared.symm.trans hsome))
    obtain ⟨rfl, rfl⟩ := Prod.mk.inj (Except.ok.inj (hverdict.symm.trans hfound))
    have hshort : streak (earlier ++ [latest]) < max s.minObservations.toNat 1 := by
      cases latest with
      | true =>
        have hlt := UInt32.lt_iff_toNat_lt.mp (hless rfl)
        rwa [toNat_max, hwatching.toNat_tally, UInt32.toNat_one, ← streak_concat_true] at hlt
      | false =>
        rw [streak_concat_false]
        omega
    cases hsuspended with
    | postponed hdelay =>
      obtain ⟨hpolls, _⟩ := counter_increment_of_delay htimeout hdelay
      rw [polls_pendingRecord, hwatching.polls] at hdelay
      refine .postponed hdelay ⟨?_, ?_, ?_, ?_, hshort⟩
      · rw [← hwatching.invoked]
        cases latest <;> rfl
      · rw [← hwatching.opened]
        cases latest <;> rfl
      · rw [counter_increment_ne _ (Step.tallyKey_ne_pollsKey _ _).symm,
          hwatching.tally_pendingRecord]
      · rw [hpolls, polls_pendingRecord, hwatching.polls, List.length_append, List.length_singleton]
    | spent hspent =>
      rw [polls_pendingRecord, hwatching.polls] at hspent
      exact .givenUp hshort hspent

/-- A step tells how to look for the effect of its request: with this probe, until so many verdicts
in a row are favourable, on this schedule. It asks for no cool-down. -/
structure Declares (config : ChainConfig) (target : Target M) (step : Step M) (probe : Probe)
    (least : UInt32) (policy : BackoffPolicy) : Prop where
  /-- How to look is the same whatever the record says. -/
  looks : ∀ r, ∃ s, step.stabilization target r = .ok (some s) ∧ s.probe = probe ∧
    s.minObservations = least ∧ s.policy.getD config.stabilization = policy
  /-- The step is complete when the effect shows. -/
  advances : ∀ observed r, (step.onComplete observed r).1 = .advance
  /-- The delays of the schedule can be counted. -/
  timeout : policy.timeout.toNat < UInt32.size

/-- The verdict on the answer to a look. A fault that ends the operation has none. -/
inductive VerdictOn (step : Step M) (target : Target M) : Except ClassifiedFault Value → Bool → Prop
  /-- The state that the service describes is judged. -/
  | described (state : Value) :
      VerdictOn step target (.ok state) (step.isStable (.present state) target)
  /-- It is judged that the service knows no such resource. -/
  | absent {fault : ClassifiedFault} (hgone : fault.disposition = .terminal .notFound) :
      VerdictOn step target (.error fault) (step.isStable .absent target)
  /-- To be turned away is unfavourable. -/
  | throttled {fault : ClassifiedFault} (hthrottled : fault.disposition = .throttled) :
      VerdictOn step target (.error fault) false
  /-- That the service stumbles is unfavourable. -/
  | transient {fault : ClassifiedFault} (htransient : fault.disposition = .transient) :
      VerdictOn step target (.error fault) false

/-- A poll judges as the verdict says. -/
theorem VerdictOn.exists_judge {answer : Except ClassifiedFault Value} {favourable : Bool}
    (h : VerdictOn step target answer favourable) :
    ∃ observed, Poll.judge (step.isStable · target) answer = .ok (favourable, observed) := by
  refine ⟨_, Poll.judge_of_verdict ?_⟩
  cases h with
  | described state => rfl
  | absent hgone => rw [Poll.verdict?, hgone]
  | throttled hthrottled => rw [Poll.verdict?, hthrottled]
  | transient htransient => rw [Poll.verdict?, htransient]

/-- The looks for the effect of a step's request in a journal all have this verdict. -/
def Judged (faults : FaultTable) (target : Target M) (step : Step M) (favourable : Bool)
    (j : Journal) : Prop :=
  ∀ look ∈ j.looks step.name, VerdictOn step target (look.answer.mapError faults.classify) favourable

section Declared

variable {probe : Probe} (hdeclares : Declares config target step probe least policy)
include hdeclares

/-- A visit to a step that waits makes one look, and heeds the verdict on it. -/
theorem Visited.heeded {r₁ : ProgressRecord M} {first : Journal}
    {result : Except Defect (Except (Outcome M) (ProgressRecord M))}
    (haccepted : Accepted faults config remote target step r past r₁ first)
    (hwatching : Watching step least earlier r₁)
    (h : Visited faults config remote target step r past result gained)
    (hjudged : Judged faults target step latest gained) :
    (∃ answer, gained.looks step.name = [⟨probe.call, answer⟩]) ∧
      Heeded step least policy earlier latest result := by
  obtain ⟨s, hdeclared, rfl, rfl, rfl⟩ := hdeclares.looks r₁
  obtain ⟨seen, second, third, rfl, hstabilized, hseen⟩ := h.exists_stabilized_of_accepted haccepted
  have hthird : third.looks step.name = [] := by
    rcases seen with defect | outcome | ⟨observed, r₂⟩
    · rw [hseen.2]
      rfl
    · rw [hseen.2]
      rfl
    · exact hseen.choose_spec.2.looks
  have hlooks : (first ++ second ++ third).looks step.name =
      [⟨s.probe.call, remote (past ++ first).exchanges s.probe.call⟩] := by
    rw [Journal.looks_append, Journal.looks_append, haccepted.looks, hstabilized.looks hdeclared,
      hthird]
    rfl
  have hverdict := hjudged _ (hlooks ▸ List.mem_singleton_self _)
  have hheeded :=
    hstabilized.heeded hwatching hdeclared hdeclares.timeout hverdict.exists_judge
  refine ⟨⟨_, hlooks⟩, ?_⟩
  rcases seen with defect | outcome | ⟨observed, r₂⟩
  · cases hheeded
  · rw [hseen.1]
    exact hheeded
  · obtain ⟨left, rfl, hcompleted⟩ := hseen
    cases hheeded with
    | enough henough =>
      obtain ⟨r', rfl⟩ := hcompleted.exists_advanced hdeclares.advances
      exact .enough henough

/-- What comes of a pass that gets to a step that waits, after earlier verdicts and the latest
one. -/
inductive PassHeeded (step : Step M) (least : UInt32) (policy : BackoffPolicy)
    (earlier : List Bool) (latest : Bool) : Except Defect (Outcome M) → Journal → Prop
  /-- There are enough favourable verdicts in a row, and the step is complete. -/
  | completed {result : Except Defect (Outcome M)} {gained : Journal}
      (henough : max least.toNat 1 ≤ streak (earlier ++ [latest]))
      (hcomplete : step.name ∈ gained.finished) :
      PassHeeded step least policy earlier latest result gained
  /-- There are not, and another pass follows after a delay. -/
  | postponed {delay : UInt64} {r' : ProgressRecord M} {gained : Journal}
      (hdelay : policy.nextDelay earlier.length = some delay)
      (hwatching : Watching step least (earlier ++ [latest]) r')
      (hopen : step.name ∉ gained.finished) :
      PassHeeded step least policy earlier latest (.ok (.inProgress delay r')) gained
  /-- There are not, and no time is left for another pass. -/
  | givenUp {gained : Journal} (hshort : streak (earlier ++ [latest]) < max least.toNat 1)
      (hspent : policy.nextDelay earlier.length = none) (hopen : step.name ∉ gained.finished) :
      PassHeeded step least policy earlier latest (.ok (notStabilized step.name policy)) gained

/-- A walk that takes up a step that waits makes one look, and heeds the verdict on it. -/
theorem Walked.heeded {r₁ : ProgressRecord M} {first : Journal} {back : List (Step M)}
    {result : Except Defect (Outcome M)} (htakes : takesUp target step r = true)
    (haccepted : Accepted faults config remote target step r past r₁ first)
    (hwatching : Watching step least earlier r₁)
    (hapart : ∀ other ∈ back, other.name ≠ step.name)
    (h : Walked faults config remote target (step :: back) r past result gained)
    (hjudged : Judged faults target step latest gained) :
    (∃ answer, gained.looks step.name = [⟨probe.call, answer⟩]) ∧
      PassHeeded step least policy earlier latest result gained := by
  cases h with
  | passedOver hover => cases hover.symm.trans htakes
  | completed _ hvisit hrest =>
    have hvisited := visited_of_run_append hvisit
    have hsilent := (hrest.omits hapart).looks
    rw [Judged, Journal.looks_append, hsilent, List.append_nil] at hjudged
    obtain ⟨hlooks, hheeded⟩ := hvisited.heeded hdeclares haccepted hwatching hjudged
    rw [Journal.looks_append, hsilent, List.append_nil]
    refine ⟨hlooks, ?_⟩
    cases hheeded with
    | enough henough =>
      refine .completed henough ?_
      rw [Journal.finished_append, hvisited.finished]
      exact List.mem_append_left _ (List.mem_singleton_self _)
  | stopped _ hvisit =>
    have hvisited := visited_of_run_append hvisit
    have hopen : step.name ∉ gained.finished := by
      rw [hvisited.finished]
      exact List.not_mem_nil
    obtain ⟨hlooks, hheeded⟩ := hvisited.heeded hdeclares haccepted hwatching hjudged
    refine ⟨hlooks, ?_⟩
    cases hheeded with
    | postponed hdelay hwatching => exact .postponed hdelay hwatching hopen
    | givenUp hshort hspent => exact .givenUp hshort hspent hopen
  | broke _ hvisit =>
    have hvisited := visited_of_run_append hvisit
    obtain ⟨_, hheeded⟩ := hvisited.heeded hdeclares haccepted hwatching hjudged
    cases hheeded

end Declared

/-- What comes of a pass is not a matter of what it did before it got to the step. -/
theorem PassHeeded.prepend {result : Except Defect (Outcome M)} {first : Journal}
    (h : PassHeeded step least policy earlier latest result gained)
    (hsilent : step.name ∉ first.finished) :
    PassHeeded step least policy earlier latest result (first ++ gained) := by
  have hiff : step.name ∈ (first ++ gained).finished ↔ step.name ∈ gained.finished := by
    rw [Journal.finished_append, List.mem_append, or_iff_right hsilent]
  cases h with
  | completed henough hcomplete => exact .completed henough (hiff.mpr hcomplete)
  | postponed hdelay hwatching hopen => exact .postponed hdelay hwatching (mt hiff.mp hopen)
  | givenUp hshort hspent hopen => exact .givenUp hshort hspent (mt hiff.mp hopen)

end Chain

open Chain

/-- A run whose passes watch for the effect of a step's request: the first one has the request
accepted, or finds it accepted, and each of them gets to the step. -/
structure Run.Watches (run : Run M) (front : List (Step M)) (step : Step M) (back : List (Step M))
    (probe : Probe) (least : UInt32) (policy : BackoffPolicy) : Prop where
  /-- The place of the step in the chain. -/
  steps : run.chain.steps = front ++ step :: back
  /-- No other step goes by its name. -/
  apart : ∀ other ∈ front ++ back, other.name ≠ step.name
  /-- How to look for the effect is the same in each pass. -/
  declares : ∀ n, Declares run.chain.config (run.targets n) step probe least policy
  /-- Each pass gets to the step, since it completes whatever it takes up before. -/
  reached : ∀ {n other rest r past result gained}, other ∈ front →
    run.Arrives n (other :: rest) r past → takesUp (run.targets n) other r = true →
    run.Visits n other r past result gained → ∃ r', result = .ok (.ok r')
  /-- In the first pass the step is taken up, and its request is accepted while no look for it is
  counted. -/
  accepted : ∀ {r past}, run.Arrives 0 (step :: back) r past →
    takesUp (run.targets 0) step r = true ∧ ∃ r₁ first,
      Accepted run.faults run.chain.config run.remote (run.targets 0) step r past r₁ first ∧
      Watching step least [] r₁
  /-- What a later pass completes before leaves the step waiting as it was. -/
  undisturbed : ∀ {n other rest r past r' gained verdicts}, other ∈ front →
    run.Arrives (n + 1) (other :: rest) r past →
    run.Visits (n + 1) other r past (.ok (.ok r')) gained →
    Watching step least verdicts r → Watching step least verdicts r'
  /-- As long as the step is not complete, it applies in each later pass. -/
  applies : ∀ {n r past}, run.Arrives (n + 1) (step :: back) r past →
    r.isDone step.name = false → step.shouldRun (run.targets (n + 1)) r = true

namespace Run

variable {run : Run M} {front back : List (Step M)} {step : Step M} {probe : Probe}
  {least : UInt32} {policy : BackoffPolicy} {n : Nat} {r : ProgressRecord M}
  {past gained : Journal} {result : Except Defect (Outcome M)}

/-- Where all that a pass takes up before some steps is completed, the pass gets to these, and what
each visit before keeps still holds then. -/
theorem Arrives.exists_walked {steps : List (Step M)} {name : String}
    {P : ProgressRecord M → Prop}
    (hprompt : ∀ {other rest r past result gained}, other ∈ front →
      run.Arrives n (other :: rest) r past → takesUp (run.targets n) other r = true →
      run.Visits n other r past result gained → ∃ r', result = .ok (.ok r') ∧ (P r → P r'))
    (hapart : ∀ other ∈ front, other.name ≠ name) (hholds : P r)
    (harrives : run.Arrives n (front ++ steps) r past)
    (h : Walked run.faults run.chain.config run.remote (run.targets n) (front ++ steps) r past result
      gained) :
    ∃ r₁ first rest, gained = first ++ rest ∧ first.Omits name ∧ P r₁ ∧
      run.Arrives n steps r₁ (past ++ first) ∧
      Walked run.faults run.chain.config run.remote (run.targets n) steps r₁ (past ++ first) result
        rest := by
  induction front generalizing r past gained with
  | nil =>
    refine ⟨r, [], gained, rfl, Journal.omits_nil name, hholds, ?_, ?_⟩
    · rwa [List.append_nil]
    · rwa [List.append_nil]
  | cons other front ih =>
    obtain ⟨hother, hapart⟩ := List.forall_mem_cons.mp hapart
    have hrest : ∀ {other rest r past result gained}, other ∈ front →
        run.Arrives n (other :: rest) r past → takesUp (run.targets n) other r = true →
        run.Visits n other r past result gained →
        ∃ r', result = .ok (.ok r') ∧ (P r → P r') :=
      fun hmem => hprompt (List.mem_cons_of_mem _ hmem)
    cases h with
    | passedOver hover hwalked => exact ih hrest hapart hholds (harrives.passedOver hover) hwalked
    | completed htakes hvisit hwalked =>
      have hvisited := visited_of_run_append hvisit
      obtain ⟨_, hresult, hkeeps⟩ := hprompt List.mem_cons_self harrives htakes hvisited
      obtain rfl := Except.ok.inj (Except.ok.inj hresult)
      obtain ⟨r₁, first, rest, rfl, homits, hholds', harrives', hwalked'⟩ :=
        ih hrest hapart (hkeeps hholds) (harrives.completed htakes hvisit) hwalked
      rw [List.append_assoc] at harrives' hwalked'
      exact ⟨r₁, _, rest, (List.append_assoc _ _ _).symm, (hvisited.omits hother).append homits,
        hholds', harrives', hwalked'⟩
    | stopped htakes hvisit =>
      obtain ⟨_, hresult, _⟩ :=
        hprompt List.mem_cons_self harrives htakes (visited_of_run_append hvisit)
      cases hresult
    | broke htakes hvisit =>
      obtain ⟨_, hresult, _⟩ :=
        hprompt List.mem_cons_self harrives htakes (visited_of_run_append hvisit)
      cases hresult

namespace Watches

variable {earlier : List Bool} {latest : Bool}
  (h : run.Watches front step back probe least policy)
include h

/-- A pass gets to the step and takes it up. With that its request is accepted, and it is
waiting. -/
theorem exists_taken (harrives : run.Arrives n run.chain.steps r past)
    (hready : n = 0 ∧ earlier = [] ∨ n ≠ 0 ∧ Watching step least earlier r)
    (hwalked : Walked run.faults run.chain.config run.remote (run.targets n) run.chain.steps r past
      result gained) :
    ∃ r₁ first rest, gained = first ++ rest ∧ first.Omits step.name ∧
      takesUp (run.targets n) step r₁ = true ∧
      (∃ r₂ sent, Accepted run.faults run.chain.config run.remote (run.targets n) step r₁
        (past ++ first) r₂ sent ∧ Watching step least earlier r₂) ∧
      Walked run.faults run.chain.config run.remote (run.targets n) (step :: back) r₁ (past ++ first)
        result rest := by
  obtain ⟨hfront, _⟩ := List.forall_mem_append.mp h.apart
  rw [h.steps] at harrives hwalked
  rcases hready with ⟨rfl, rfl⟩ | ⟨hlater, hwatching⟩
  · obtain ⟨r₁, first, rest, rfl, homits, -, harrives, hwalked⟩ :=
      harrives.exists_walked (P := fun _ => True)
        (fun hmem harrives htakes hvisit =>
          (h.reached hmem harrives htakes hvisit).imp fun _ hresult => ⟨hresult, id⟩)
        hfront trivial hwalked
    obtain ⟨htakes, r₂, sent, haccepted, hwatching⟩ := h.accepted harrives
    exact ⟨r₁, first, rest, rfl, homits, htakes, ⟨r₂, sent, haccepted, hwatching⟩, hwalked⟩
  · obtain ⟨n, rfl⟩ := Nat.exists_eq_succ_of_ne_zero hlater
    obtain ⟨r₁, first, rest, rfl, homits, hwatching, harrives, hwalked⟩ :=
      harrives.exists_walked (P := Watching step least earlier)
        (fun hmem harrives htakes hvisit => by
          obtain ⟨r', rfl⟩ := h.reached hmem harrives htakes hvisit
          exact ⟨r', rfl, h.undisturbed hmem harrives hvisit⟩)
        hfront hwatching hwalked
    have htakes := takesUp_iff.mpr ⟨hwatching.opened, h.applies harrives hwatching.opened⟩
    exact ⟨r₁, first, rest, rfl, homits, htakes,
      ⟨r₁, [], .earlier hwatching.invoked, hwatching⟩, hwalked⟩

/-- A pass makes one look for the effect, and heeds the verdict on it. -/
theorem heeded (harrives : run.Arrives n run.chain.steps r past)
    (hready : n = 0 ∧ earlier = [] ∨ n ≠ 0 ∧ Watching step least earlier r)
    (hwalked : Walked run.faults run.chain.config run.remote (run.targets n) run.chain.steps r past
      result gained)
    (hjudged : Judged run.faults (run.targets n) step latest gained) :
    (∃ answer, gained.looks step.name = [⟨probe.call, answer⟩]) ∧
      PassHeeded step least policy earlier latest result gained := by
  obtain ⟨_, hback⟩ := List.forall_mem_append.mp h.apart
  obtain ⟨r₁, first, rest, rfl, homits, htakes, ⟨_, _, haccepted, hwatching⟩, hwalked⟩ :=
    h.exists_taken harrives hready hwalked
  rw [Judged, Journal.looks_append, homits.looks, List.nil_append] at hjudged
  obtain ⟨hlooks, hheeded⟩ :=
    hwalked.heeded (h.declares n) htakes haccepted hwatching hback hjudged
  rw [Journal.looks_append, homits.looks, List.nil_append]
  exact ⟨hlooks, hheeded.prepend homits.2⟩

/-- Each pass makes one look for the effect, and heeds the verdicts so far, as long as no pass
before completes the step. -/
theorem heeded_passes (verdicts : Nat → Bool) {limit k : Nat} {report : PassReport M}
    (harrives : run.Arrives n run.chain.steps (seed (run.targets n) r) past)
    (hready : n = 0 ∧ earlier = [] ∨
      n ≠ 0 ∧ Watching step least earlier (seed (run.targets n) r))
    (hreport : (run.chain.passesToward run.faults run.remote run.targets limit n r past)[k]? =
      some report)
    (hjudged : ∀ i ≤ k, ∀ report,
      (run.chain.passesToward run.faults run.remote run.targets limit n r past)[i]? = some report →
      Judged run.faults (run.targets (n + i)) step (verdicts (n + i)) report.journal)
    (hopen : ∀ i < k, ∀ report,
      (run.chain.passesToward run.faults run.remote run.targets limit n r past)[i]? = some report →
      step.name ∉ report.journal.finished) :
    (∃ answer, report.journal.looks step.name = [⟨probe.call, answer⟩]) ∧
      PassHeeded step least policy (earlier ++ (List.range' n k).map verdicts) (verdicts (n + k))
        report.result report.journal := by
  induction k generalizing limit n r past earlier with
  | zero =>
    cases limit with
    | zero => cases hreport
    | succ limit =>
      obtain ⟨first, hwalked, hpasses⟩ :=
        run.chain.exists_passesToward_succ run.faults run.remote run.targets limit n r past
      rw [hpasses] at hreport hjudged
      obtain rfl := Option.some.inj hreport
      rw [List.range'_zero, List.map_nil, List.append_nil]
      exact h.heeded harrives hready hwalked (hjudged 0 le_rfl first rfl)
  | succ k ih =>
    cases limit with
    | zero => cases hreport
    | succ limit =>
      obtain ⟨first, hwalked, hpasses⟩ :=
        run.chain.exists_passesToward_succ run.faults run.remote run.targets limit n r past
      rw [hpasses] at hreport hjudged hopen
      obtain ⟨result, gained⟩ := first
      obtain ⟨_, hheeded⟩ :=
        h.heeded harrives hready hwalked (hjudged 0 (Nat.zero_le _) _ rfl)
      cases hheeded with
      | completed _ hcomplete => exact absurd hcomplete (hopen 0 (Nat.succ_pos k) _ rfl)
      | givenUp => cases hreport
      | @postponed delay r' _ _ hwatching =>
        have hnext : Watching step least (earlier ++ [verdicts n]) (seed (run.targets (n + 1)) r') :=
          hwatching.congr (flag_seed _ r') (counters_seed _ r')
        have hheeded := ih (harrives.ends_of_walked hwalked).arrives
          (.inr ⟨Nat.succ_ne_zero n, hnext⟩) hreport ?_ ?_
        · simpa [List.range'_succ, Nat.add_assoc, Nat.add_comm 1] using hheeded
        · intro i hi report hreport
          have hlater := hjudged (i + 1) (Nat.succ_le_succ hi) report hreport
          rwa [← Nat.add_assoc, Nat.add_right_comm] at hlater
        · intro i hi report hreport
          exact hopen (i + 1) (Nat.succ_lt_succ hi) report hreport

end Watches

/-- From the pass on that has the request of a step accepted, each pass makes one look for its
effect. As long as no pass before completes the step, a pass completes it exactly when the last
verdicts, as many as the step asks for and at least one, are there and are favourable. Otherwise the
pass suspends the operation for the delay that the schedule has after so many looks, or gives it up
when the delays up to then have used up the time. Where no hook changes marks, a record that a pass
leaves says whether the pass has completed the step. -/
theorem stabilization_heeds_verdicts (h : run.Watches front step back probe least policy)
    (verdicts : Nat → Bool) {limit k : Nat} {report : PassReport M}
    (hreport : (run.passes limit)[k]? = some report)
    (hjudged : ∀ i ≤ k, ∀ earlier, (run.passes limit)[i]? = some earlier →
      Judged run.faults (run.targets i) step (verdicts i) earlier.journal)
    (hopen : ∀ i < k, ∀ earlier, (run.passes limit)[i]? = some earlier →
      step.name ∉ earlier.journal.finished) :
    (∃ answer, report.journal.looks step.name = [⟨probe.call, answer⟩]) ∧
    (step.name ∈ report.journal.finished ↔
      List.replicate (max least.toNat 1) true <:+ (List.range (k + 1)).map verdicts) ∧
    (step.name ∉ report.journal.finished →
      if policy.elapsed k < policy.timeout.toNat then
        ∃ delay r, policy.nextDelay k = some delay ∧ report.result = .ok (.inProgress delay r)
      else report.result = .ok (notStabilized step.name policy)) ∧
    ((∀ other ∈ run.chain.steps, other.KeepsMarks) → ∀ delay r,
      report.result = .ok (.inProgress delay r) →
      (r.isDone step.name = true ↔ step.name ∈ report.journal.finished)) := by
  obtain ⟨before, after, hpasses⟩ := List.append_of_mem (List.mem_of_getElem? hreport)
  obtain ⟨_, _, hwalked⟩ := walked_of_passes hpasses
  obtain ⟨result, gained⟩ := report
  have hstart : (0 = 0 ∧ ([] : List Bool) = [] ∨
      0 ≠ 0 ∧ Watching step least [] (seed (run.targets 0) run.start)) := .inl ⟨rfl, rfl⟩
  obtain ⟨hlooks, hheeded⟩ := h.heeded_passes verdicts .start hstart hreport
    (fun i hi earlier hearlier => by simpa using hjudged i hi earlier hearlier) hopen
  have hseen : [] ++ (List.range' 0 k).map verdicts ++ [verdicts (0 + k)] =
      (List.range (k + 1)).map verdicts := by
    simp [List.range_succ, List.range_eq_range']
  have hlength : ([] ++ (List.range' 0 k).map verdicts).length = k := by simp
  refine ⟨hlooks, ?_⟩
  rw [replicate_suffix_iff, ← hseen]
  cases hheeded with
  | completed henough hcomplete =>
    refine ⟨iff_of_true hcomplete henough, fun hopen => absurd hcomplete hopen, ?_⟩
    rintro hkeeps delay r rfl
    exact iff_of_true (hwalked.isDone_of_suspended hkeeps (.inr hcomplete)) hcomplete
  | postponed hdelay hwatching hopen =>
    rw [hlength] at hdelay
    refine ⟨iff_of_false hopen hwatching.short.not_ge, fun _ => ?_, ?_⟩
    · rw [if_pos ((policy.elapsed_lt_timeout_iff k).mpr ⟨_, hdelay⟩)]
      exact ⟨_, _, hdelay, rfl⟩
    · rintro - _ _ ⟨⟩
      exact iff_of_false (Bool.eq_false_iff.mp hwatching.opened) hopen
  | givenUp hshort hspent hopen =>
    rw [hlength] at hspent
    refine ⟨iff_of_false hopen hshort.not_ge, fun _ => ?_, nofun⟩
    rw [if_neg ((policy.nextDelay_eq_none_iff k).mp hspent).not_lt]

/-- A step whose effect shows when two looks in a row say so. -/
def growing : Step Unit where
  name := "grow"
  request _ _ := .ok ⟨"Grow", .null⟩
  stabilization _ _ := .ok (some
    { probe := .describe "it", minObservations := 2, policy := some (.constant 40 60) })
  isStable observation _ :=
    match observation with
    | .present (.bool grown) => grown
    | _ => false

/-- A run in which the first look comes too early. -/
def hesitant : Run Unit where
  chain := { operation := "grow", config := {}, steps := [growing] }
  faults := FaultTable.common
  remote past _ := .ok (.bool (2 ≤ past.length))
  targets _ := { desired := () }
  start := .empty

theorem hesitant_watches :
    hesitant.Watches [] growing [] (.describe "it") 2 (.constant 40 60) := by
  refine ⟨rfl, List.forall_mem_nil _, fun _ => ⟨fun _ => ⟨_, rfl, rfl, rfl, rfl⟩, fun _ _ => rfl, ?_⟩,
    fun hmem => absurd hmem List.not_mem_nil, ?_, fun hmem => absurd hmem List.not_mem_nil,
    fun _ _ => rfl⟩
  · decide
  · intro r past harrives
    have hfirst : ∀ {other r past}, ¬hesitant.Arrives 0 [other, growing] r past := by
      intro other r past harrives
      obtain ⟨front, hfront⟩ := harrives.exists_front
      simpa [hesitant] using congrArg List.length hfront
    have hstart : r = seed (hesitant.targets 0) hesitant.start ∧ past = [] := by
      cases harrives with
      | start => exact ⟨rfl, rfl⟩
      | passedOver harrives => exact absurd harrives hfirst
      | completed harrives => exact absurd harrives hfirst
    obtain ⟨rfl, rfl⟩ := hstart
    refine ⟨rfl, _, _, .now rfl (.accepted rfl rfl), ?_⟩
    refine ⟨?_, ?_, ?_, ?_, ?_⟩ <;> decide +kernel

/-- The third look is the second favourable one in a row, and completes the step although no time is
left by then; before, the first look is unfavourable and the second one does not count enough. -/
theorem hesitant_heeds_verdicts :
    hesitant.Watches [] growing [] (.describe "it") 2 (.constant 40 60) ∧
    (BackoffPolicy.constant 40 60).elapsed 2 = 60 ∧
    ∃ report, (hesitant.passes 5)[2]? = some report ∧ "grow" ∈ report.journal.finished := by
  have hjudged : ∀ i ≤ 2, ∀ earlier, (hesitant.passes 5)[i]? = some earlier →
      Judged hesitant.faults (hesitant.targets i) growing (1 ≤ i) earlier.journal := by
    intro i hi earlier hearlier look hlook
    have hlooks : ((hesitant.passes 5)[i]?).map (·.journal.looks "grow") =
        some [⟨.describe "it", .ok (.bool (1 ≤ i))⟩] := by
      obtain rfl | rfl | rfl : i = 0 ∨ i = 1 ∨ i = 2 := by omega
      all_goals rfl
    rw [hearlier] at hlooks
    rw [show earlier.journal.looks growing.name = _ from Option.some.inj hlooks,
      List.mem_singleton] at hlook
    rw [hlook]
    exact .described (.bool (1 ≤ i))
  have hopen : ∀ i < 2, ∀ earlier, (hesitant.passes 5)[i]? = some earlier →
      growing.name ∉ earlier.journal.finished := by
    intro i hi earlier hearlier
    have hnone : ((hesitant.passes 5)[i]?).map (·.journal.finished) = some [] := by
      obtain rfl | rfl : i = 0 ∨ i = 1 := by omega
      all_goals rfl
    rw [hearlier] at hnone
    rw [show earlier.journal.finished = [] from Option.some.inj hnone]
    exact List.not_mem_nil
  obtain ⟨report, hreport⟩ : ∃ report, (hesitant.passes 5)[2]? = some report := ⟨_, rfl⟩
  obtain ⟨_, hcompletes, _⟩ := stabilization_heeds_verdicts hesitant_watches (fun i => 1 ≤ i)
    hreport hjudged hopen
  exact ⟨hesitant_watches, rfl, report, hreport, hcompletes.mpr (by decide)⟩

end Run

end Lifecycle
