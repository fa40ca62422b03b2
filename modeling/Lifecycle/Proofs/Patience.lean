import Lifecycle.Proofs.Budget
import Lifecycle.Proofs.Looks
import Lifecycle.Proofs.Schedule
import Lifecycle.Proofs.Verdicts

/-!
# Runs that wait for one step

When a run waits for a single step (`Run.WaitsFor`) and every look for the effect of its request
is favourable, each pass but the last one makes a look that does not count enough yet, and spends
a delay of the schedule of looks. So the run succeeds exactly when this schedule hands out a delay
for each look but the last one that is needed (`Run.WaitsFor.exists_last`).
-/

namespace Lifecycle

open Json ProgressRecord

variable {M : Type}

/-- The schedule hands out so many delays. -/
def BackoffPolicy.Lasts (policy : BackoffPolicy) (delays : Nat) : Prop :=
  ∀ attempts < delays, policy.nextDelay attempts ≠ none

instance (policy : BackoffPolicy) (delays : Nat) : Decidable (policy.Lasts delays) :=
  inferInstanceAs (Decidable (∀ attempts < delays, policy.nextDelay attempts ≠ none))

/-- No delay is asked for. -/
theorem BackoffPolicy.lasts_zero (policy : BackoffPolicy) : policy.Lasts 0 :=
  fun _ hlt => absurd hlt (Nat.not_lt_zero _)

/-- One more delay. -/
theorem BackoffPolicy.Lasts.succ {policy : BackoffPolicy} {delays : Nat}
    (h : policy.Lasts delays) (hnext : policy.nextDelay delays ≠ none) :
    policy.Lasts (delays + 1) := by
  intro attempts hlt
  rcases Nat.lt_succ_iff_lt_or_eq.mp hlt with hlt | rfl
  · exact h attempts hlt
  · exact hnext

/-- A schedule hands out one more delay than so many exactly when so many leave some of its time. -/
theorem BackoffPolicy.lasts_succ_iff {policy : BackoffPolicy} {delays : Nat} :
    policy.Lasts (delays + 1) ↔ policy.elapsed delays < policy.timeout.toNat := by
  simp only [Lasts, ne_eq, nextDelay_eq_none_iff]
  constructor
  · intro h
    exact Nat.lt_of_le_of_ne (policy.elapsed_le_timeout _) (h delays (Nat.lt_succ_self _))
  · intro hlt attempts hle hspent
    have htotal := policy.monotone_total (Nat.le_of_lt_succ hle)
    unfold elapsed at hlt hspent
    omega

/-- So many favourable looks were made for the effect of a step's request, and as many delays are
spent. -/
structure ProgressRecord.Waited (name : String) (looks : Nat) (r : ProgressRecord M) : Prop where
  /-- The favourable looks in a row. -/
  tally : (r.counter (Step.tallyKey name)).toNat = looks
  /-- The delays that are spent. -/
  polls : (r.counter (Step.pollsKey name)).toNat = looks

/-- How often one waited is a matter of the counters alone. -/
theorem ProgressRecord.Waited.congr {name : String} {looks : Nat} {r r' : ProgressRecord M}
    (h : r.Waited name looks) (hcounters : r'.counters = r.counters) : r'.Waited name looks := by
  refine ⟨?_, ?_⟩
  · rw [counter_congr hcounters, h.tally]
  · rw [counter_congr hcounters, h.polls]

namespace Chain

variable {faults : FaultTable} {config : ChainConfig} {remote : Remote} {target : Target M}
  {step : Step M} {r r' : ProgressRecord M} {past gained : Journal}

/-- The request of the step can be made and is accepted. -/
structure Welcome (remote : Remote) (target : Target M) (step : Step M) (r : ProgressRecord M) :
    Prop where
  /-- There is a request. -/
  request : ∃ request, step.request target r = .ok request
  /-- The service accepts it. -/
  accepted : ∀ past request, ∃ response, remote past (.invoke request) = .ok response

/-- A welcome request is accepted when it is sent. -/
theorem Issued.exists_accepted {result : Except Defect (Issue M)}
    (hwelcome : Welcome remote target step r)
    (h : Issued faults config remote target step r past result gained) :
    ∃ r', result = .ok (.accepted r') := by
  have hno : ∀ {request fault},
      ¬remote past.exchanges (.invoke request) = .error fault := by
    intro request fault hanswer
    obtain ⟨response, hresponse⟩ := hwelcome.accepted past.exchanges request
    cases hanswer.symm.trans hresponse
  cases h with
  | defect hdefect =>
    obtain ⟨request, hrequest⟩ := hwelcome.request
    cases hrequest.symm.trans hdefect
  | accepted => exact ⟨_, rfl⟩
  | tolerated _ hanswer => exact absurd hanswer hno
  | retried _ hanswer => exact absurd hanswer hno
  | refused _ hanswer => exact absurd hanswer hno

/-- A visit to a step with a welcome request looks for the effect of the request. -/
theorem Visited.exists_stabilized
    {result : Except Defect (Except (Outcome M) (ProgressRecord M))}
    (hwelcome : Welcome remote target step r)
    (h : Visited faults config remote target step r past result gained) :
    ∃ r₁ first seen second, Accepted faults config remote target step r past r₁ first ∧
      Stabilized faults config remote target step r₁ (past ++ first) seen second ∧
      match seen with
      | .error defect => result = .error defect
      | .ok (.error outcome) => result = .ok (.error outcome)
      | .ok (.ok (observed, r₂)) => ∃ left third, result = .ok left ∧
          Completed step observed r₂ left third := by
  cases h with
  | unmade _ hissued => cases (hissued.exists_accepted hwelcome).choose_spec
  | halted _ hissued => cases (hissued.exists_accepted hwelcome).choose_spec
  | tolerated _ hissued => cases (hissued.exists_accepted hwelcome).choose_spec
  | unseen haccepted hstabilized => exact ⟨_, _, _, _, haccepted, hstabilized, rfl⟩
  | unstable haccepted hstabilized => exact ⟨_, _, _, _, haccepted, hstabilized, rfl⟩
  | shown haccepted hstabilized hcompleted =>
    exact ⟨_, _, _, _, haccepted, hstabilized, _, _, rfl, hcompleted⟩

/-- A step with a welcome request whose effect nobody waits for is complete after one visit. -/
theorem Visited.exists_completed_of_welcome
    {result : Except Defect (Except (Outcome M) (ProgressRecord M))}
    (hwelcome : Welcome remote target step r)
    (hdeclared : ∀ r, step.stabilization target r = .ok none)
    (hadvances : ∀ observed r, (step.onComplete observed r).1 = .advance)
    (h : Visited faults config remote target step r past result gained) :
    ∃ r', result = .ok (.ok r') := by
  obtain ⟨r₁, first, seen, second, _, hstabilized, hseen⟩ := h.exists_stabilized hwelcome
  cases hstabilized with
  | undeclared =>
    obtain ⟨left, third, rfl, hcompleted⟩ := hseen
    obtain ⟨r', rfl⟩ := hcompleted.exists_advanced hadvances
    exact ⟨r', rfl⟩
  | defect hlooks => cases (hdeclared r₁).symm.trans hlooks
  | refused hlooks => cases (hdeclared r₁).symm.trans hlooks
  | stable hlooks => cases (hdeclared r₁).symm.trans hlooks
  | pending hlooks => cases (hdeclared r₁).symm.trans hlooks

/-- A request that is accepted costs no look and no delay of the schedule of looks. -/
theorem Accepted.waited {looks : Nat} (hcounters : step.KeepsCounters)
    (h : Accepted faults config remote target step r past r' gained)
    (hwaited : r.Waited step.name looks) : r'.Waited step.name looks := by
  cases h with
  | earlier => exact hwaited
  | now _ hissued =>
    cases hissued with
    | accepted =>
      refine ⟨?_, ?_⟩
      · rw [counter_acceptedRecord_ne hcounters _ _ (Step.tallyKey_ne_throttlesKey _ _).symm,
          hwaited.tally]
      · rw [counter_acceptedRecord_ne hcounters _ _ (Step.pollsKey_ne_throttlesKey _ _).symm,
          hwaited.polls]

/-- Each look for the effect of the step's request is favourable, but it takes so many of them, on
this schedule. -/
structure Favoured (faults : FaultTable) (config : ChainConfig) (remote : Remote)
    (target : Target M) (step : Step M) (least : UInt32) (policy : BackoffPolicy) : Prop where
  /-- It is told how to look, and the look is favourable. -/
  looks : ∀ r, ∃ s, step.stabilization target r = .ok (some s) ∧ s.minObservations = least ∧
    s.policy.getD config.stabilization = policy ∧
    ∀ past, ∃ observed, verdict faults remote target step s past = .ok (true, observed)
  /-- No cool-down follows. -/
  advances : ∀ observed r, (step.onComplete observed r).1 = .advance
  /-- What the record keeps of the answer is no counter. -/
  counters : step.KeepsCounters

/-- What comes of the next favourable look after so many. -/
inductive Awaited (step : Step M) (least : Nat) (policy : BackoffPolicy) (looks : Nat) :
    Except Defect (Except (Outcome M) (ProgressRecord M)) → Prop
  /-- It was the last one needed. -/
  | enough {r' : ProgressRecord M} (henough : looks + 1 = least) :
      Awaited step least policy looks (.ok (.ok r'))
  /-- Another one is needed, after a delay. -/
  | postponed {delay : UInt64} {r' : ProgressRecord M} (hshort : looks + 1 < least)
      (hdelay : policy.nextDelay looks = some delay) (hwaited : r'.Waited step.name (looks + 1)) :
      Awaited step least policy looks (.ok (.error (.inProgress delay r')))
  /-- Another one is needed, and there is no time left for it. -/
  | givenUp (hshort : looks + 1 < least) (hspent : policy.nextDelay looks = none) :
      Awaited step least policy looks (.ok (.error (notStabilized step.name policy)))

section Favoured

variable {least : UInt32} {policy : BackoffPolicy} {looks : Nat}
  (hfavoured : Favoured faults config remote target step least policy)
  (hlooks : looks < max least.toNat 1)
include hfavoured hlooks

omit hfavoured in
/-- One more favourable look and one more delay. -/
theorem waited_increment (hwaited : r.Waited step.name looks) :
    ((r.increment (Step.tallyKey step.name)).increment (Step.pollsKey step.name)).Waited step.name
      (looks + 1) := by
  have hpolls := counter_increment_ne r (Step.tallyKey_ne_pollsKey step.name step.name)
  refine ⟨?_, counter_increment_of_short (by rw [hpolls, hwaited.polls]) hlooks⟩
  rw [counter_increment_ne _ (Step.tallyKey_ne_pollsKey _ _).symm,
    counter_increment_of_short hwaited.tally hlooks]

/-- A look after so many favourable ones. -/
theorem Stabilized.awaited
    {seen : Except Defect (Except (Outcome M) (Option Value × ProgressRecord M))}
    (hwaited : r.Waited step.name looks)
    (h : Stabilized faults config remote target step r past seen gained) :
    Awaited step (max least.toNat 1) policy looks (seen.map (·.map (·.2))) := by
  have htally := counter_increment_of_short hwaited.tally hlooks
  obtain ⟨s, hdeclares, rfl, rfl, hfavourable⟩ := hfavoured.looks r
  obtain ⟨observed, hverdict⟩ := hfavourable past
  cases h with
  | defect hdefect => cases hdeclares.symm.trans hdefect
  | undeclared hnone => cases hdeclares.symm.trans hnone
  | refused hdeclared hrefused =>
    obtain rfl := Option.some.inj (Except.ok.inj (hdeclares.symm.trans hdeclared))
    cases hverdict.symm.trans hrefused
  | stable hdeclared _ henough =>
    obtain rfl := Option.some.inj (Except.ok.inj (hdeclares.symm.trans hdeclared))
    rw [UInt32.le_iff_toNat_le, toNat_max, htally, UInt32.toNat_one] at henough
    exact .enough (by omega)
  | pending hdeclared hfound hshort hsuspended =>
    obtain rfl := Option.some.inj (Except.ok.inj (hdeclares.symm.trans hdeclared))
    obtain ⟨rfl, rfl⟩ := Prod.mk.inj (Except.ok.inj (hverdict.symm.trans hfound))
    have hless := UInt32.lt_iff_toNat_lt.mp (hshort rfl)
    rw [toNat_max, htally, UInt32.toNat_one] at hless
    have hpolls : ((pendingRecord step true r).counter (Step.pollsKey step.name)).toNat =
        looks := by
      rw [← hwaited.polls, pendingRecord, if_pos rfl,
        counter_increment_ne r (Step.tallyKey_ne_pollsKey _ _)]
    cases hsuspended with
    | postponed hdelay =>
      rw [hpolls] at hdelay
      exact .postponed hless hdelay (waited_increment hlooks hwaited)
    | spent hspent =>
      rw [hpolls] at hspent
      exact .givenUp hless hspent

/-- A visit after so many favourable looks. -/
theorem Visited.awaited {result : Except Defect (Except (Outcome M) (ProgressRecord M))}
    (hwelcome : Welcome remote target step r) (hwaited : r.Waited step.name looks)
    (h : Visited faults config remote target step r past result gained) :
    Awaited step (max least.toNat 1) policy looks result := by
  obtain ⟨r₁, first, seen, second, haccepted, hstabilized, hseen⟩ := h.exists_stabilized hwelcome
  have hawaited :=
    hstabilized.awaited hfavoured hlooks (haccepted.waited hfavoured.counters hwaited)
  rcases seen with defect | outcome | ⟨observed, r₂⟩
  · cases hawaited
  · rw [hseen]
    exact hawaited
  · obtain ⟨left, third, rfl, hcompleted⟩ := hseen
    obtain ⟨r', rfl⟩ := hcompleted.exists_advanced hfavoured.advances
    cases hawaited with
    | enough henough => exact .enough henough

end Favoured

end Chain

open Chain

/-- A run waits for no other step than this one: its request is welcome, the looks for its effect
are favourable, and the other steps that are taken up come later and are complete at once. -/
structure Run.WaitsFor (run : Run M) (step : Step M) (least : UInt32) (policy : BackoffPolicy) :
    Prop where
  /-- The names of the steps keep their marks apart. -/
  names : run.chain.NamesApart
  /-- Hooks leave the marks alone. -/
  marks : ∀ other ∈ run.chain.steps, other.KeepsMarks
  /-- The first pass takes up no progress. -/
  start : run.start = .empty
  /-- The step is one of the chain. -/
  mem : step ∈ run.chain.steps
  /-- It applies in any case. -/
  applies : run.Verdict step true
  /-- Its request is accepted. -/
  welcome : ∀ n r, Welcome run.remote (run.targets n) step r
  /-- The looks for its effect are favourable. -/
  favoured : ∀ n, Favoured run.faults run.chain.config run.remote (run.targets n) step least policy
  /-- Other steps that are taken up come later. -/
  later : ∀ {n other steps r past front}, run.Arrives n (other :: steps) r past →
    takesUp (run.targets n) other r = true → other ≠ step →
    run.chain.steps = front ++ other :: steps → step ∈ front
  /-- A visit to them completes them. -/
  prompt : ∀ {n other steps r past result gained}, run.Arrives n (other :: steps) r past →
    takesUp (run.targets n) other r = true → other ≠ step →
    run.Visits n other r past result gained → ∃ r', result = .ok (.ok r')

/-- So many passes have waited for the step. -/
structure Run.Waiting (name : String) (least : Nat) (policy : BackoffPolicy) (n : Nat)
    (r : ProgressRecord M) : Prop where
  /-- They were not enough. -/
  short : n < least
  /-- The schedule had a delay for each of them. -/
  lasts : policy.Lasts n
  /-- Each of them made a favourable look. -/
  waited : r.isDone name = false → r.Waited name n
  /-- The step is complete when this pass made the last look needed. -/
  done : r.isDone name = true → n + 1 = least

namespace Run.WaitsFor

variable {run : Run M} {step : Step M} {least : UInt32} {policy : BackoffPolicy} {n : Nat}
  {steps : List (Step M)} {r : ProgressRecord M} {past : Journal}
  (h : run.WaitsFor step least policy)
include h

/-- A step that is taken up is the one that the run waits for, or that one is complete. -/
theorem eq_or_isDone {other : Step M} (harrives : run.Arrives n (other :: steps) r past)
    (htakes : takesUp (run.targets n) other r = true) :
    other = step ∨ r.isDone step.name = true := by
  by_cases heq : other = step
  · exact .inl heq
  · obtain ⟨front, hfront⟩ := harrives.exists_front
    exact .inr (harrives.isDone_of_mem_front h.marks h.applies hfront
      (h.later harrives htakes heq hfront))

/-- A visit is one to the step that the run waits for, with its next favourable look, or it
completes another step. -/
theorem awaited_or_completed {other : Step M} {gained : Journal}
    {result : Except Defect (Except (Outcome M) (ProgressRecord M))}
    (hwaiting : Waiting step.name (max least.toNat 1) policy n r)
    (harrives : run.Arrives n (other :: steps) r past)
    (htakes : takesUp (run.targets n) other r = true)
    (hvisited : run.Visits n other r past result gained) :
    other = step ∧ Awaited step (max least.toNat 1) policy n result ∨
      ∃ r', result = .ok (.ok r') := by
  by_cases heq : other = step
  · subst heq
    have hwaited := hwaiting.waited (takesUp_iff.mp htakes).1
    exact .inl ⟨rfl, hvisited.awaited (h.favoured n) hwaiting.short (h.welcome n r) hwaited⟩
  · exact .inr (h.prompt harrives htakes heq hvisited)

/-- Wherever a run gets to, each pass before has waited for the step. -/
theorem waiting (harrives : run.Arrives n steps r past) :
    Waiting step.name (max least.toNat 1) policy n r := by
  induction harrives with
  | start =>
    have hnew : (seed (run.targets 0) run.start).isDone step.name = false := by
      rw [isDone, flag_seed, h.start, flag_empty]
    refine ⟨by omega, policy.lasts_zero, fun _ => ?_, fun hdone => ?_⟩
    · refine Waited.congr (r := .empty) ⟨rfl, rfl⟩ ?_
      rw [counters_seed, h.start]
    · cases hnew.symm.trans hdone
  | passedOver _ _ ih => exact ih
  | @completed n other steps r r' past journal harrives htakes hrun ih =>
    obtain ⟨gained, rfl, hvisited⟩ := visited_of_run hrun
    rcases h.eq_or_isDone harrives htakes with rfl | hdone
    · have hopen := (takesUp_iff.mp htakes).1
      cases hvisited.awaited (h.favoured n) ih.short (h.welcome n r) (ih.waited hopen) with
      | enough henough =>
        have hdone := hvisited.isDone_of_completed (h.marks other harrives.mem)
        refine ⟨ih.short, ih.lasts, fun hnew => ?_, fun _ => henough⟩
        cases hdone.symm.trans hnew
    · have hkept := (hvisited.marks (h.marks other harrives.mem) rfl).kept _ hdone
      refine ⟨ih.short, ih.lasts, fun hnew => ?_, fun _ => ih.done hdone⟩
      cases hkept.symm.trans hnew
  | @resumed n other steps r r' past journal delay harrives htakes hrun ih =>
    obtain ⟨gained, rfl, hvisited⟩ := visited_of_run hrun
    rcases h.awaited_or_completed ih harrives htakes hvisited with ⟨rfl, hawaited⟩ | ⟨_, hresult⟩
    · cases hawaited with
      | postponed hshort hdelay hwaited =>
        have hnew : (seed (run.targets (n + 1)) r').isDone other.name = false := by
          rw [isDone, flag_seed, ← (takesUp_iff.mp htakes).1]
          exact hvisited.isDone_eq_of_suspended (h.marks other harrives.mem) rfl
        refine ⟨hshort, ih.lasts.succ (by simp [hdelay]), fun _ => ?_, fun hdone => ?_⟩
        · exact hwaited.congr (counters_seed _ _)
        · cases hnew.symm.trans hdone
    · cases hresult

/-- How a pass ends: with success after the last look that is needed, and before that with the
operation suspended, or given up when the schedule has no delay left. -/
theorem ends {result : Except Defect (Outcome M)} (hends : run.Ends n result past) :
    (n + 1 = max least.toNat 1 ∧ policy.Lasts n ∧ ∃ model, result = .ok (.success model)) ∨
    (n + 1 < max least.toNat 1 ∧ ∃ delay r, result = .ok (.inProgress delay r)) ∨
    (n + 1 < max least.toNat 1 ∧ policy.nextDelay n = none ∧
      result = .ok (notStabilized step.name policy)) := by
  cases hends with
  | @finished r _ harrives =>
    have hwaiting := h.waiting harrives
    have hdone := harrives.isDone_of_mem_front h.marks h.applies (List.append_nil _).symm h.mem
    refine .inl ⟨hwaiting.done hdone, hwaiting.lasts, ?_⟩
    rw [report]
    cases run.chain.config.terminal <;> exact ⟨_, rfl⟩
  | stopped harrives htakes hrun =>
    obtain ⟨gained, rfl, hvisited⟩ := visited_of_run hrun
    right
    rcases h.awaited_or_completed (h.waiting harrives) harrives htakes hvisited with
      ⟨rfl, hawaited⟩ | ⟨_, hresult⟩
    · cases hawaited with
      | postponed hshort => exact .inl ⟨hshort, _, _, rfl⟩
      | givenUp hshort hspent => exact .inr ⟨hshort, hspent, rfl⟩
    · cases hresult
  | broke harrives htakes hrun =>
    obtain ⟨gained, rfl, hvisited⟩ := visited_of_run hrun
    rcases h.awaited_or_completed (h.waiting harrives) harrives htakes hvisited with
      ⟨_, hawaited⟩ | ⟨_, hresult⟩
    · cases hawaited
    · cases hresult

/-- A run that waits for one step comes to its end in as many passes as looks are needed, if so many
are made: with success if the schedule of looks hands out a delay for each look but the last one,
and else by giving up. -/
theorem exists_last {limit : Nat} (hlimit : max least.toNat 1 ≤ limit) :
    ∃ suspended last, run.passes limit = suspended ++ [last] ∧
      (∀ report ∈ suspended, report.IsSuspended) ∧ suspended.length < max least.toNat 1 ∧
      if policy.Lasts (least.toNat - 1) then ∃ model, last.result = .ok (.success model)
      else last.result = .ok (notStabilized step.name policy) := by
  obtain ⟨limit, rfl⟩ := Nat.exists_eq_succ_of_ne_zero (show limit ≠ 0 by omega)
  obtain ⟨suspended, last, hpasses, hsuspended, hlast⟩ :=
    run.chain.exists_passesToward_eq run.faults run.remote run.targets limit 0 run.start []
  have hends : run.Ends suspended.length last.result (journalOf suspended ++ last.journal) :=
    ends_of_passes hpasses
  refine ⟨suspended, last, hpasses, hsuspended, ?_⟩
  rcases h.ends hends with
    ⟨henough, hlasts, hsuccess⟩ | ⟨hshort, hprogress⟩ | ⟨hshort, hspent, hgivenUp⟩
  · rw [show least.toNat - 1 = suspended.length by omega, if_pos hlasts]
    exact ⟨by omega, hsuccess⟩
  · have hlength := hlast hprogress
    omega
  · rw [if_neg fun hlasts => hlasts suspended.length (by omega) hspent]
    exact ⟨by omega, hgivenUp⟩

end Run.WaitsFor

end Lifecycle
