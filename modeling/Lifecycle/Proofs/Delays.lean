import Lifecycle.Proofs.Completion
import Lifecycle.Proofs.Requests
import Lifecycle.Proofs.Schedule
import Lifecycle.Proofs.Suspensions
import Lifecycle.Proofs.Termination

/-!
# The delays that a step hands out

The time that an operation has waited at a step is recorded nowhere: every pass works
it out of a counter and a schedule. `Accounts` says that this is the true time, namely
the sum of the delays that the journal has handed out, which are the delays of the
outcomes of the passes. A suspension adds the same seconds on both sides, and whatever
else a visit does changes neither side (`Visited.accounts`), so the accounts are in order
wherever a run gets to. A schedule is therefore given up exactly when the delays handed
out have reached its timeout (`Run.delays_accounted`).
-/

namespace Lifecycle

open Json ProgressRecord

variable {M : Type}

namespace Chain

variable {faults : FaultTable} {config : ChainConfig} {remote : Remote} {target : Target M}
  {step : Step M} {r r' : ProgressRecord M} {past gained : Journal} {name : String}
  {cause : SuspensionCause} {throttling polling : BackoffPolicy}

@[simp] theorem delays_sent (request : RemoteRequest) (answer : Answer) (j : Journal) :
    Journal.delays name cause (sent step request answer :: j) = j.delays name cause := rfl

@[simp] theorem delays_looked (s : Stabilization) (answer : Answer) (j : Journal) :
    Journal.delays name cause (looked step s answer :: j) = j.delays name cause := rfl

@[simp] theorem delays_settling : (settling step r).delays name cause = 0 :=
  Journal.delays_of_suspensions_eq_nil suspensions_settling

/-- The time waited at a step, as its counters have it, is the time that the journal has handed out.
The counter of requests says so only until the request is accepted. -/
structure Accounts (throttling polling : BackoffPolicy) (name : String) (r : ProgressRecord M)
    (j : Journal) : Prop where
  /-- Time spent looking for the effect. -/
  pending : j.delays name .pending = polling.elapsed (r.counter (Step.pollsKey name)).toNat
  /-- Time spent before the request is sent again. -/
  retry : r.isInvoked name = false →
    j.delays name .retry = throttling.elapsed (r.counter (Step.throttlesKey name)).toNat
  /-- No more time is spent on this than the schedule has. -/
  retry_le : j.delays name .retry ≤ throttling.timeout.toNat

/-- A part of a visit that changes neither the time handed out at a step nor the time by its
counters. -/
structure Idle (name : String) (r r' : ProgressRecord M) (gained : Journal) : Prop where
  /-- The counter of looks stays. -/
  polls : r'.counter (Step.pollsKey name) = r.counter (Step.pollsKey name)
  /-- The counter of requests stays until the request is accepted. -/
  throttles : r'.isInvoked name = false → r.isInvoked name = false ∧
    r'.counter (Step.throttlesKey name) = r.counter (Step.throttlesKey name)
  /-- No delay is handed out for looks. -/
  pending : gained.delays name .pending = 0
  /-- No delay is handed out for requests. -/
  retry : gained.delays name .retry = 0

/-- Accounts that are in order stay so while nothing is handed out. -/
theorem Accounts.idle (h : Accounts throttling polling name r past)
    (hidle : Idle name r r' gained) : Accounts throttling polling name r' (past ++ gained) := by
  refine ⟨?_, ?_, ?_⟩
  · rw [Journal.delays_append, hidle.pending, hidle.polls, Nat.add_zero]
    exact h.pending
  · intro hnew
    obtain ⟨hnew', hthrottles⟩ := hidle.throttles hnew
    rw [Journal.delays_append, hidle.retry, hthrottles, Nat.add_zero]
    exact h.retry hnew'
  · rw [Journal.delays_append, hidle.retry, Nat.add_zero]
    exact h.retry_le

/-- In the record of an operation that has not begun and in the empty journal no time is spent. -/
theorem accounts_empty (throttling polling : BackoffPolicy) (name : String) :
    Accounts throttling polling name (.empty : ProgressRecord M) [] :=
  ⟨polling.elapsed_zero.symm, fun _ => throttling.elapsed_zero.symm, Nat.zero_le _⟩

/-- Accounts are a matter of marks and counters. -/
theorem Accounts.congr (h : Accounts throttling polling name r past) (hflag : r'.flag = r.flag)
    (hcounters : r'.counters = r.counters) : Accounts throttling polling name r' past := by
  refine ⟨?_, ?_, h.retry_le⟩
  · rw [counter_congr hcounters]
    exact h.pending
  · intro hnew
    rw [isInvoked, hflag] at hnew
    rw [counter_congr hcounters]
    exact h.retry hnew

/-- Records that differ in marks only, of which none is cleared. -/
theorem Idle.of_counters_eq (hcounters : r'.counters = r.counters)
    (hmarks : ∀ key, r.flag key = true → r'.flag key = true)
    (hpending : gained.delays name .pending = 0) (hretry : gained.delays name .retry = 0) :
    Idle name r r' gained := by
  refine ⟨counter_congr hcounters _, ?_, hpending, hretry⟩
  intro hnew
  refine ⟨?_, counter_congr hcounters _⟩
  by_contra hset
  rw [isInvoked, Bool.not_eq_false] at hset
  cases (hmarks name hset).symm.trans hnew

/-- Raising or forgetting a counter that is none of the two, without handing out a delay. -/
theorem Idle.of_tally (step : Step M) (hflags : r'.flags = r.flags)
    (hcounter : ∀ key, Step.tallyKey step.name ≠ key → r'.counter key = r.counter key)
    (hpending : gained.delays name .pending = 0) (hretry : gained.delays name .retry = 0) :
    Idle name r r' gained := by
  refine ⟨hcounter _ (Step.tallyKey_ne_pollsKey _ _), ?_, hpending, hretry⟩
  intro hnew
  refine ⟨?_, hcounter _ (Step.tallyKey_ne_throttlesKey _ _)⟩
  rw [← hnew]
  exact (flag_congr hflags name).symm

/-- Accepting a request hands out no delay. -/
theorem Accepted.idle (hmarks : step.KeepsMarks) (hcounters : step.KeepsCounters)
    (h : Accepted faults config remote target step r past r' gained) (name : String) :
    Idle name r r' gained := by
  cases h with
  | earlier => exact .of_counters_eq rfl (fun _ hset => hset) rfl rfl
  | now _ hissued =>
    cases hissued with
    | @accepted request response =>
      have hkept : ∀ key, Step.throttlesKey step.name ≠ key →
          (acceptedRecord step response r).counter key = r.counter key :=
        fun _ hne => counter_acceptedRecord_ne hcounters response r hne
      have hflag : (acceptedRecord step response r).flag = (r.markInvoked step.name).flag :=
        funext fun key => flag_congr (hmarks.capture _ _) key
      refine ⟨hkept _ (Step.pollsKey_ne_throttlesKey _ _).symm, ?_, by simp, by simp⟩
      intro hnew
      rw [isInvoked, hflag] at hnew
      have hne : step.name ≠ name := by
        rintro rfl
        rw [markInvoked, flag_mark_self] at hnew
        cases hnew
      refine ⟨?_, hkept _ (mt Step.throttlesKey_inj.mp hne)⟩
      rw [← hnew]
      exact (flag_mark_ne r hne).symm

/-- An effect that shows hands out no delay. -/
theorem Stabilized.idle {observed : Option Value}
    (h : Stabilized faults config remote target step r past (.ok (.ok (observed, r'))) gained)
    (name : String) : Idle name r r' gained := by
  cases h with
  | undeclared => exact .of_counters_eq rfl (fun _ hset => hset) rfl rfl
  | stable =>
    exact .of_tally step rfl (fun _ hne => counter_increment_ne r hne) (by simp) (by simp)

/-- The verdict of a look hands out no delay. -/
theorem idle_pendingRecord (step : Step M) (favourable : Bool) (s : Stabilization) (answer : Answer)
    (r : ProgressRecord M) (name : String) :
    Idle name r (pendingRecord step favourable r) [looked step s answer] := by
  cases favourable with
  | true =>
    exact .of_tally step rfl (fun _ hne => counter_increment_ne r hne) (by simp) (by simp)
  | false =>
    exact .of_tally step rfl (fun _ hne => counter_resetCounter_ne r hne) (by simp)
      (by simp)

/-- Completing a step hands out no delay but that of a cool-down. -/
theorem Completed.idle {observed : Option Value} {result : Except (Outcome M) (ProgressRecord M)}
    (hmarks : step.KeepsMarks) (hcounters : step.KeepsCounters)
    (h : Completed step observed r result gained) (hleft : recordLeft? (.ok result) = some r')
    (name : String) : Idle name r r' gained := by
  cases h with
  | @cooling delay r₁ hcompletion =>
    obtain rfl := Option.some.inj hleft
    have hcounts := hcounters.counters_completed hcompletion
    refine .of_counters_eq hcounts ?_ (by simp) (by simp)
    intro key hset
    exact flag_mark_of_flag (flag_congr (hmarks.flags_completed hcompletion) key ▸ hset) _
  | @advanced _ r₁ hcompletion =>
    obtain rfl := Option.some.inj hleft
    have hcounts := hcounters.counters_completed hcompletion
    refine .of_counters_eq hcounts ?_ (by simp) (by simp)
    intro key hset
    exact flag_mark_of_flag (flag_congr (hmarks.flags_completed hcompletion) key ▸ hset) _

/-- A suspension at one step hands out no delay at another one. -/
theorem idle_suspended {key : String} {delay : UInt64} (hne : step.name ≠ name)
    (hpolls : key ≠ Step.pollsKey name) (hthrottles : key ≠ Step.throttlesKey name)
    (r : ProgressRecord M) (cause : SuspensionCause) :
    Idle name r (r.increment key) [.suspended step.name cause delay] := by
  refine ⟨counter_increment_ne r hpolls, ?_, by simp [hne], by simp [hne]⟩
  intro hnew
  exact ⟨hnew, counter_increment_ne r hthrottles⟩

/-- A delay that is handed out before a request is sent again is entered on both sides. -/
theorem Accounts.retried {outcome exhausted : Outcome M}
    (haccounts : Accounts throttling polling name r past)
    (htimeout : throttling.timeout.toNat < UInt32.size) (hnew : r.isInvoked step.name = false)
    (h : Suspended step .retry throttling (Step.throttlesKey step.name) r exhausted outcome gained)
    (hexhausted : exhausted.progress? = none) (hleft : outcome.progress? = some r') :
    Accounts throttling polling name r' (past ++ gained) := by
  cases h with
  | spent => simp [hexhausted] at hleft
  | @postponed delay hdelay =>
    obtain rfl := Option.some.inj hleft
    by_cases hname : step.name = name
    · subst hname
      obtain ⟨hraised, _⟩ := counter_increment_of_delay htimeout hdelay
      have hpolls := counter_increment_ne r (Step.pollsKey_ne_throttlesKey step.name step.name).symm
      have hspent := throttling.elapsed_succ hdelay
      have hretry : (past ++ [Entry.suspended step.name .retry delay]).delays step.name .retry =
          throttling.elapsed ((r.counter (Step.throttlesKey step.name)).toNat + 1) := by
        rw [hspent, ← haccounts.retry hnew]
        simp
      refine ⟨?_, ?_, ?_⟩
      · rw [hpolls, ← haccounts.pending]
        simp
      · intro _
        rw [hraised, hretry]
      · rw [hretry]
        exact throttling.elapsed_le_timeout _
    · refine haccounts.idle (idle_suspended hname ?_ ?_ r .retry)
      · exact (Step.pollsKey_ne_throttlesKey _ _).symm
      · exact mt Step.throttlesKey_inj.mp hname

/-- A delay that is handed out before another look is entered on both sides. -/
theorem Accounts.looked {outcome exhausted : Outcome M} {policy : BackoffPolicy}
    (haccounts : Accounts throttling polling name r past)
    (hpolling : step.name = name → policy = polling)
    (htimeout : polling.timeout.toNat < UInt32.size)
    (h : Suspended step .pending policy (Step.pollsKey step.name) r exhausted outcome gained)
    (hexhausted : exhausted.progress? = none) (hleft : outcome.progress? = some r') :
    Accounts throttling polling name r' (past ++ gained) := by
  cases h with
  | spent => simp [hexhausted] at hleft
  | @postponed delay hdelay =>
    obtain rfl := Option.some.inj hleft
    by_cases hname : step.name = name
    · subst hname
      obtain rfl := hpolling rfl
      obtain ⟨hraised, _⟩ := counter_increment_of_delay htimeout hdelay
      have hthrottles := counter_increment_ne r (Step.pollsKey_ne_throttlesKey step.name step.name)
      have hspent := policy.elapsed_succ hdelay
      refine ⟨?_, ?_, ?_⟩
      · rw [hraised, hspent, ← haccounts.pending]
        simp
      · intro hnew
        rw [hthrottles, ← haccounts.retry hnew]
        simp
      · simpa using haccounts.retry_le
    · refine haccounts.idle (idle_suspended hname ?_ ?_ r .pending)
      · exact mt Step.pollsKey_inj.mp hname
      · exact Step.pollsKey_ne_throttlesKey _ _

section Visits

variable (hmarks : step.KeepsMarks) (hcounters : step.KeepsCounters)
  (haccounts : Accounts config.throttling polling name r past)
include hmarks hcounters haccounts

/-- A request that is accepted leaves accounts in order, in whichever pass it is. -/
theorem Accepted.accounts (h : Accepted faults config remote target step r past r' gained) :
    Accounts config.throttling polling name r' (past ++ gained) :=
  haccounts.idle (h.idle hmarks hcounters name)

/-- A visit leaves accounts in order. -/
theorem Visited.accounts {result : Except Defect (Except (Outcome M) (ProgressRecord M))}
    (hthrottling : config.throttling.timeout.toNat < UInt32.size)
    (hpolling : step.name = name → ∀ r s, step.stabilization target r = .ok (some s) →
      s.policy.getD config.stabilization = polling)
    (htimeout : polling.timeout.toNat < UInt32.size)
    (h : Visited faults config remote target step r past result gained)
    (hleft : recordLeft? result = some r') :
    Accounts config.throttling polling name r' (past ++ gained) := by
  cases h with
  | unmade => simp [recordLeft?] at hleft
  | unseen => simp [recordLeft?] at hleft
  | halted hnew hissued =>
    cases hissued with
    | refused => simp [recordLeft?, Outcome.ofFault, Outcome.progress?] at hleft
    | @retried request fault outcome later _ _ _ _ hsuspended =>
      have hsent : Idle name r r (settling step r ++ [sent step request (.error fault)]) :=
        .of_counters_eq rfl (fun _ hset => hset) (by simp) (by simp)
      have hlater := (haccounts.idle hsent).retried hthrottling hnew hsuspended rfl hleft
      simpa using hlater
  | tolerated _ hissued =>
    obtain rfl := Option.some.inj hleft
    cases hissued with
    | tolerated =>
      refine haccounts.idle (.of_counters_eq rfl ?_ (by simp) (by simp))
      exact fun _ hset => flag_mark_of_flag hset _
  | @unstable r₁ outcome first second haccepted hstabilized =>
    have hfirst := haccepted.accounts hmarks hcounters haccounts
    cases hstabilized with
    | refused => simp [recordLeft?, Outcome.ofFault, Outcome.progress?] at hleft
    | @pending s favourable _ _ later hdeclared _ _ hsuspended =>
      have hseen := hfirst.idle (idle_pendingRecord step favourable s
        (remote (past ++ first).exchanges s.probe.call) r₁ name)
      have hlater := hseen.looked (fun hname => hpolling hname r₁ s hdeclared) htimeout hsuspended
        rfl hleft
      simpa using hlater
  | shown haccepted hstabilized hcompleted =>
    have hfirst := haccepted.accounts hmarks hcounters haccounts
    have hsecond := hfirst.idle (hstabilized.idle name)
    have hthird := hsecond.idle (hcompleted.idle hmarks hcounters hleft name)
    simpa using hthird

end Visits

/-- A schedule that ends an operation is spent: the delays handed out at the step have reached its
timeout. -/
theorem Suspended.elapsed_eq_timeout {policy : BackoffPolicy} {key : String}
    {outcome exhausted : Outcome M}
    (h : Suspended step cause policy key r exhausted outcome gained)
    (hover : outcome.progress? = none) :
    policy.elapsed (r.counter key).toNat = policy.timeout.toNat ∧ gained = [] := by
  cases h with
  | postponed => cases hover
  | spent hspent => exact ⟨(policy.nextDelay_eq_none_iff _).mp hspent, rfl⟩

/-- A visit that leaves no record hands out no delay. -/
theorem Visited.delays_eq_zero {result : Except Defect (Except (Outcome M) (ProgressRecord M))}
    (h : Visited faults config remote target step r past result gained)
    (hover : recordLeft? result = none) : gained.delays name cause = 0 := by
  refine Journal.delays_of_suspensions_eq_nil (h.suspensions ?_)
  rintro delay r' rfl
  cases hover

/-- A look whose answer is judged does not end the operation. -/
theorem verdict_ne_error {s : Stabilization}
    (hjudged : ∀ fault, remote past.exchanges s.probe.call = .error fault →
      (faults.classify fault).isNotFound = true ∨ (faults.classify fault).isRetryable = true)
    (fault : ClassifiedFault) : verdict faults remote target step s past ≠ .error fault := by
  rw [verdict]
  cases hanswer : remote past.exchanges s.probe.call with
  | ok state => simp [Poll.judge]
  | error met =>
    rcases hjudged met hanswer with hgone | hretryable
    · simp [Poll.judge, hgone]
    · simp only [Session.mapError_classify_error, Poll.judge, hretryable, if_true]
      split <;> simp

/-- A visit that ends the operation with a look that is judged has waited as long as the schedule of
looks allows. -/
theorem Visited.delays_of_look {outcome : Outcome M} {before : Journal} {exchange : Exchange}
    (hmarks : step.KeepsMarks) (hcounters : step.KeepsCounters)
    (hpolling : step.name = name → ∀ r s, step.stabilization target r = .ok (some s) →
      s.policy.getD config.stabilization = polling)
    (haccounts : Accounts config.throttling polling name r past)
    (h : Visited faults config remote target step r past (.ok (.error outcome)) gained)
    (hover : outcome.progress? = none)
    (hlast : past ++ gained =
      before ++ [.exchanged (.observation (Step.tallyKey name)) exchange])
    (hjudged : ∀ fault, exchange.answer = .error fault →
      (faults.classify fault).isNotFound = true ∨ (faults.classify fault).isRetryable = true) :
    (past ++ gained).delays name .pending = polling.timeout.toNat := by
  cases h with
  | halted _ hissued =>
    cases hissued with
    | refused =>
      rw [← List.append_assoc] at hlast
      cases List.append_inj_right' hlast rfl
    | retried _ _ _ _ hsuspended =>
      obtain ⟨_, rfl⟩ := hsuspended.elapsed_eq_timeout hover
      rw [← List.append_assoc] at hlast
      cases List.append_inj_right' hlast rfl
  | @unstable r₁ outcome first second haccepted hstabilized =>
    cases hstabilized with
    | refused _ hverdict =>
      rw [← List.append_assoc] at hlast
      obtain ⟨_, hexchange⟩ :=
        Entry.exchanged.inj (List.cons.inj (List.append_inj_right' hlast rfl)).1
      rw [← hexchange] at hjudged
      exact absurd hverdict (verdict_ne_error hjudged _)
    | @pending s favourable _ _ _ hdeclared _ _ hsuspended =>
      obtain ⟨hspent, rfl⟩ := hsuspended.elapsed_eq_timeout hover
      have hfirst := haccepted.accounts hmarks hcounters haccounts
      have hseen := hfirst.idle (idle_pendingRecord step favourable s
        (remote (past ++ first).exchanges s.probe.call) r₁ name)
      rw [← List.append_assoc] at hlast
      obtain ⟨htally, _⟩ :=
        Entry.exchanged.inj (List.cons.inj (List.append_inj_right' hlast rfl)).1
      obtain rfl := Step.tallyKey_inj.mp (Purpose.observation.inj htally)
      rw [hpolling rfl r₁ s hdeclared] at hspent
      rw [← hspent, ← hseen.pending]
      simp
  | shown _ _ hcompleted =>
    cases hcompleted with
    | cooling => cases hover

/-- A visit that ends the operation with a request that met a fault that may pass has waited as long
as the schedule of requests allows. -/
theorem Visited.delays_of_request {outcome : Outcome M} {before : Journal} {call : Call}
    {fault : Fault} (haccounts : Accounts config.throttling polling name r past)
    (h : Visited faults config remote target step r past (.ok (.error outcome)) gained)
    (hover : outcome.progress? = none)
    (hlast : past ++ gained = before ++ [.exchanged (.mutation name) ⟨call, .error fault⟩])
    (hretryable : (faults.classify fault).isRetryable = true) :
    (past ++ gained).delays name .retry = config.throttling.timeout.toNat := by
  cases h with
  | halted hnew hissued =>
    cases hissued with
    | @refused request met _ _ _ hterminal =>
      rw [← List.append_assoc] at hlast
      obtain ⟨_, hexchange⟩ :=
        Entry.exchanged.inj (List.cons.inj (List.append_inj_right' hlast rfl)).1
      obtain rfl := Except.error.inj (Exchange.mk.inj hexchange).2
      cases hterminal.symm.trans hretryable
    | retried _ _ _ _ hsuspended =>
      obtain ⟨hspent, rfl⟩ := hsuspended.elapsed_eq_timeout hover
      rw [← List.append_assoc] at hlast
      obtain ⟨hname, _⟩ :=
        Entry.exchanged.inj (List.cons.inj (List.append_inj_right' hlast rfl)).1
      obtain rfl := Purpose.mutation.inj hname
      rw [← hspent, ← haccounts.retry hnew]
      simp
  | unstable haccepted hstabilized =>
    cases hstabilized with
    | refused =>
      rw [← List.append_assoc] at hlast
      cases List.append_inj_right' hlast rfl
    | pending _ _ _ hsuspended =>
      obtain ⟨_, rfl⟩ := hsuspended.elapsed_eq_timeout hover
      rw [← List.append_assoc] at hlast
      cases List.append_inj_right' hlast rfl
  | shown _ _ hcompleted =>
    cases hcompleted with
    | cooling => cases hover

end Chain

open Chain

/-- The time that a step of the chain has waited, as its counters have it, is the time that the
passes so far have handed out there. For requests this is so until the journal has an accepted
one. -/
def Chain.KeepsTime (c : Chain M) (polling : BackoffPolicy) (name : String)
    (reports : List (PassReport M)) (r : ProgressRecord M) (j : Journal) : Prop :=
  handedOut name .pending reports = polling.elapsed (r.counter (Step.pollsKey name)).toNat ∧
    ((∀ entry ∈ j, entry.accepts name = false) → handedOut name .retry reports =
      c.config.throttling.elapsed (r.counter (Step.throttlesKey name)).toNat)

/-- Time is a matter of counters, so taking a record up does not change it. -/
theorem Chain.KeepsTime.of_seed {c : Chain M} {polling : BackoffPolicy} {name : String}
    {reports : List (PassReport M)} {target : Target M} {r : ProgressRecord M} {j : Journal}
    (h : c.KeepsTime polling name reports (seed target r) j) :
    c.KeepsTime polling name reports r j := by
  have hcounters := (counters_seed target r).symm
  rw [KeepsTime, counter_congr hcounters, counter_congr hcounters]
  exact h

/-- A pass fails because the effect of a step's request did not show in time: the last call was a
look for it, and no fault ended the operation. -/
structure Chain.PassReport.RunsOutOfLooks (faults : FaultTable) (name : String)
    (report : PassReport M) : Prop where
  /-- The outcome says so. -/
  result : ∃ message, report.result = .ok (.failed .notStabilized message)
  /-- The last call was a look, and what it saw was judged. -/
  last : ∃ before exchange,
    report.journal = before ++ [.exchanged (.observation (Step.tallyKey name)) exchange] ∧
      ∀ fault, exchange.answer = .error fault →
        (faults.classify fault).isNotFound = true ∨ (faults.classify fault).isRetryable = true

/-- A pass fails because the request of a step was turned away once too often: the last call was
this request, and it met a fault that may pass. -/
structure Chain.PassReport.RunsOutOfRetries (faults : FaultTable) (name : String)
    (report : PassReport M) : Prop where
  /-- The outcome says so. -/
  result : ∃ message, report.result = .ok (.failed .generalServiceException message)
  /-- The last call was the request. -/
  last : ∃ before call fault,
    report.journal = before ++ [.exchanged (.mutation name) ⟨call, .error fault⟩] ∧
      (faults.classify fault).isRetryable = true

namespace Run

variable {run : Run M} {polling : Step M → BackoffPolicy} {n : Nat} {step : Step M}
  {steps : List (Step M)} {r : ProgressRecord M} {past : Journal}

/-- No two steps of a run share a name, so that a look for the effect of a step's request follows
the schedule that goes with the name. -/
theorem Scheduled.schedule_of_name_eq (hscheduled : run.Scheduled polling)
    (hnames : run.chain.NamesApart) {other : Step M} (hother : other ∈ run.chain.steps)
    (hstep : step ∈ run.chain.steps) (n : Nat) (hname : other.name = step.name)
    (r : ProgressRecord M) (s : Stabilization)
    (hdeclared : other.stabilization (run.targets n) r = .ok (some s)) :
    s.policy.getD run.chain.config.stabilization = polling step := by
  obtain rfl := hnames.eq_of_name_eq hother hstep hname
  exact hscheduled.schedule other hother n r s hdeclared

/-- Wherever a run from the empty record gets to, the accounts of all steps are in order. -/
theorem Arrives.accounts (hscheduled : run.Scheduled polling) (hnames : run.chain.NamesApart)
    (hstart : run.start = .empty) (hstep : step ∈ run.chain.steps)
    (harrives : run.Arrives n steps r past) :
    Accounts run.chain.config.throttling (polling step) step.name r past := by
  have hseed : ∀ n (r : ProgressRecord M) past,
      Accounts run.chain.config.throttling (polling step) step.name r past →
      Accounts run.chain.config.throttling (polling step) step.name (seed (run.targets n) r)
        past := by
    intro n r past haccounts
    refine haccounts.congr (flag_seed _ _) ?_
    unfold seed
    cases r.model <;> rfl
  refine harrives.invariant ?_ hseed ?_
  · rw [hstart]
    exact hseed 0 .empty [] (accounts_empty _ _ _)
  · intro n other steps r r' past result gained harrives _ hvisited hleft haccounts
    exact hvisited.accounts (hscheduled.marks other harrives.mem)
      (hscheduled.counters other harrives.mem) haccounts hscheduled.throttlingTimeout
      (hscheduled.schedule_of_name_eq hnames harrives.mem hstep n)
      (hscheduled.pollingTimeout step hstep) hleft

/-- Wherever a run from the empty record gets to, its counters keep the time of all steps. -/
theorem Arrives.keepsTime (hscheduled : run.Scheduled polling) (hnames : run.chain.NamesApart)
    (hstart : run.start = .empty) (hstep : step ∈ run.chain.steps)
    (harrives : run.Arrives n steps r past) {reports : List (PassReport M)}
    (hreports : ∀ cause, past.delays step.name cause = handedOut step.name cause reports) :
    run.chain.KeepsTime (polling step) step.name reports r past := by
  have haccounts := harrives.accounts hscheduled hnames hstart hstep
  rw [KeepsTime, ← hreports, ← hreports]
  refine ⟨haccounts.pending, ?_⟩
  intro hnone
  refine haccounts.retry ?_
  by_contra hinvoked
  rw [Bool.not_eq_false] at hinvoked
  obtain ⟨request, response, hsent⟩ :=
    harrives.sent_of_isInvoked hnames hscheduled.marks hstart hstep hinvoked
  have haccepts : (sent step request (.ok response)).accepts step.name = true := decide_eq_true rfl
  cases (hnone _ hsent).symm.trans haccepts

/-- No step hands out more time than its schedules have. -/
theorem Ends.delays_le (hscheduled : run.Scheduled polling) (hnames : run.chain.NamesApart)
    (hstart : run.start = .empty) (hstep : step ∈ run.chain.steps)
    {result : Except Defect (Outcome M)} {journal : Journal} (hends : run.Ends n result journal) :
    journal.delays step.name .pending ≤ (polling step).timeout.toNat ∧
      journal.delays step.name .retry ≤ run.chain.config.throttling.timeout.toNat := by
  have hvisit : ∀ {n other rest r past journal result}, run.Arrives n (other :: rest) r past →
      run.visit n other r past = (result, journal) →
      journal.delays step.name .pending ≤ (polling step).timeout.toNat ∧
        journal.delays step.name .retry ≤ run.chain.config.throttling.timeout.toNat := by
    intro n other rest r past journal result harrives hrun
    obtain ⟨gained, rfl, hvisited⟩ := visited_of_run hrun
    have haccounts := harrives.accounts hscheduled hnames hstart hstep
    have hmarks := hscheduled.marks other harrives.mem
    have hcounters := hscheduled.counters other harrives.mem
    cases hleft : recordLeft? result with
    | none =>
      rw [Journal.delays_append, Journal.delays_append, hvisited.delays_eq_zero hleft,
        hvisited.delays_eq_zero hleft, haccounts.pending]
      exact ⟨BackoffPolicy.elapsed_le_timeout _ _, haccounts.retry_le⟩
    | some r' =>
      have hlater := hvisited.accounts hmarks hcounters haccounts hscheduled.throttlingTimeout
        (hscheduled.schedule_of_name_eq hnames harrives.mem hstep n)
        (hscheduled.pollingTimeout step hstep) hleft
      rw [hlater.pending]
      exact ⟨BackoffPolicy.elapsed_le_timeout _ _, hlater.retry_le⟩
  cases hends with
  | finished harrives =>
    have haccounts := harrives.accounts hscheduled hnames hstart hstep
    rw [haccounts.pending]
    exact ⟨BackoffPolicy.elapsed_le_timeout _ _, haccounts.retry_le⟩
  | stopped harrives _ hrun => exact hvisit harrives hrun
  | broke harrives _ hrun => exact hvisit harrives hrun

/-- A pass that fails was ended by a visit. -/
theorem Ends.exists_visits_of_failed {kind : FailureKind} {message : String} {journal : Journal}
    (hends : run.Ends n (.ok (.failed kind message)) journal) :
    ∃ other rest r past gained, journal = past ++ gained ∧ run.Arrives n (other :: rest) r past ∧
      run.Visits n other r past (.ok (.error (.failed kind message))) gained := by
  generalize hresult : (.ok (.failed kind message) : Except Defect (Outcome M)) = result at hends
  cases hends with
  | finished harrives =>
    rw [report] at hresult
    cases hterminal : run.chain.config.terminal <;> simp [hterminal] at hresult
  | stopped harrives _ hrun =>
    obtain rfl := Except.ok.inj hresult
    obtain ⟨gained, rfl, hvisited⟩ := visited_of_run hrun
    exact ⟨_, _, _, _, gained, rfl, harrives, hvisited⟩
  | broke => cases hresult

/-- In a run from the empty record the time that a step has waited, as its counters have it, is the
sum of the delays with which passes were suspended there: wherever the run gets to and in every
record that it leaves. For requests this is so until one is accepted. No step hands out more time
than its schedules have, and a schedule that is given up is used up to the second. A pass that is
suspended notes where and why, and what it did last bears it out. -/
theorem delays_accounted (run : Run M) (polling : Step M → BackoffPolicy)
    (hscheduled : run.Scheduled polling) (hnames : run.chain.NamesApart)
    (hstart : run.start = .empty) {step : Step M} (hstep : step ∈ run.chain.steps) :
    (∀ n steps r past, run.Arrives n steps r past →
      run.chain.KeepsTime (polling step) step.name (run.passes n) r past) ∧
    (∀ limit before report after delay r, run.passes limit = before ++ report :: after →
      report.result = .ok (.inProgress delay r) →
      run.chain.KeepsTime (polling step) step.name (before ++ [report]) r
        (journalOf before ++ report.journal)) ∧
    (∀ limit reports, reports <+: run.passes limit →
      handedOut step.name .pending reports ≤ (polling step).timeout.toNat ∧
        handedOut step.name .retry reports ≤ run.chain.config.throttling.timeout.toNat) ∧
    (∀ limit before report, run.passes limit = before ++ [report] →
      (report.RunsOutOfLooks run.faults step.name →
        handedOut step.name .pending (run.passes limit) = (polling step).timeout.toNat) ∧
      (report.RunsOutOfRetries run.faults step.name →
        handedOut step.name .retry (run.passes limit) =
          run.chain.config.throttling.timeout.toNat)) ∧
    (∀ limit before report after delay r, run.passes limit = before ++ report :: after →
      report.result = .ok (.inProgress delay r) → ∃ other ∈ run.chain.steps, ∃ cause,
        HeldUp run.faults run.remote (run.targets before.length) (journalOf before) other delay
          cause report.journal) := by
  have hall : ∀ limit cause, (run.journal limit).delays step.name cause =
      handedOut step.name cause (run.passes limit) :=
    fun limit cause => delays_journalOf (List.append_nil _).symm
  refine ⟨?_, ?_, ?_, ?_, ?_⟩
  · intro n steps r past harrives
    exact harrives.keepsTime hscheduled hnames hstart hstep fun _ => harrives.delays_eq
  · intro limit before report after delay r hpasses hresult
    have hends := ends_of_passes hpasses
    rw [hresult] at hends
    refine (hends.arrives.keepsTime hscheduled hnames hstart hstep fun cause => ?_).of_seed
    rw [← List.singleton_append, ← List.append_assoc] at hpasses
    rw [← delays_journalOf hpasses]
    simp [journalOf]
  · intro limit reports hprefix
    have hle : handedOut step.name .pending (run.passes limit) ≤ (polling step).timeout.toNat ∧
        handedOut step.name .retry (run.passes limit) ≤
          run.chain.config.throttling.timeout.toNat := by
      rw [← hall, ← hall]
      rcases run.journal_eq_nil_or_ends limit with hnone | ⟨n, result, hends⟩
      · simp [hnone]
      · exact hends.delays_le hscheduled hnames hstart hstep
    exact ⟨(handedOut_mono hprefix).trans hle.1, (handedOut_mono hprefix).trans hle.2⟩
  · intro limit before report hpasses
    have hends := ends_of_passes hpasses
    have hjournal : run.journal limit = journalOf before ++ report.journal := by
      simp [journal, hpasses, journalOf]
    rw [← hall, ← hall, hjournal]
    constructor
    · rintro ⟨⟨message, hresult⟩, front, exchange, hlast, hjudged⟩
      rw [hresult] at hends
      obtain ⟨other, rest, r, past, gained, hsplit, harrives, hvisited⟩ :=
        hends.exists_visits_of_failed
      have hend : past ++ gained = (journalOf before ++ front) ++
          [.exchanged (.observation (Step.tallyKey step.name)) exchange] := by
        rw [← hsplit, hlast, List.append_assoc]
      rw [hsplit]
      exact hvisited.delays_of_look (hscheduled.marks other harrives.mem)
        (hscheduled.counters other harrives.mem)
        (hscheduled.schedule_of_name_eq hnames harrives.mem hstep _)
        (harrives.accounts hscheduled hnames hstart hstep) rfl hend hjudged
    · rintro ⟨⟨message, hresult⟩, front, call, fault, hlast, hretryable⟩
      rw [hresult] at hends
      obtain ⟨other, rest, r, past, gained, hsplit, harrives, hvisited⟩ :=
        hends.exists_visits_of_failed
      have hend : past ++ gained = (journalOf before ++ front) ++
          [.exchanged (.mutation step.name) ⟨call, .error fault⟩] := by
        rw [← hsplit, hlast, List.append_assoc]
      rw [hsplit]
      exact hvisited.delays_of_request (harrives.accounts hscheduled hnames hstart hstep) rfl hend
        hretryable
  · intro limit before report after delay r hpasses hresult
    obtain ⟨_, _, hwalked⟩ := walked_of_passes hpasses
    rw [hresult] at hwalked
    exact hwalked.exists_heldUp

/-- A run whose only request is turned away once, is accepted, and has an effect that never shows;
the second of the two delays between looks is cut to what the timeout leaves. -/
def lateAndInVain : Run Unit where
  chain :=
    { operation := "create"
      config := { stabilization := .constant 40 60, throttling := .constant 5 60 }
      steps :=
        [{ name := "create"
           request := fun _ _ => .ok ⟨"Create", .null⟩
           stabilization := fun _ _ => .ok (some { probe := .describe "it" })
           isStable := fun _ _ => false }] }
  faults := FaultTable.common
  remote past _ :=
    match past with
    | [] => .error ⟨"Throttling", "Rate exceeded", 400⟩
    | _ :: _ => .ok .null
  targets _ := { desired := () }
  start := .empty

/-- The run whose effect never shows is given up when its sixty seconds for looks are used up, which
two passes hand out; five more seconds went by before its request was accepted. -/
theorem lateAndInVain_accounted :
    lateAndInVain.Scheduled (fun _ => .constant 40 60) ∧ lateAndInVain.chain.NamesApart ∧
      (lateAndInVain.passes 9).length = 4 ∧
      (∃ before report, lateAndInVain.passes 9 = before ++ [report] ∧
        report.RunsOutOfLooks lateAndInVain.faults "create") ∧
      handedOut "create" .pending (lateAndInVain.passes 9) = 60 ∧
      handedOut "create" .retry (lateAndInVain.passes 9) = 5 := by
  have hscheduled : lateAndInVain.Scheduled (fun _ => .constant 40 60) := by
    refine ⟨?_, ?_, ?_, by decide +kernel, by decide +kernel⟩
    · intro step hstep
      obtain rfl := List.mem_singleton.mp hstep
      exact ⟨fun _ _ => rfl, fun _ _ => rfl⟩
    · intro step hstep
      obtain rfl := List.mem_singleton.mp hstep
      exact ⟨fun _ _ => rfl, fun _ _ => rfl⟩
    · intro step hstep n r s hdeclared
      obtain rfl := List.mem_singleton.mp hstep
      obtain rfl := Option.some.inj (Except.ok.inj hdeclared)
      rfl
  have hnames : lateAndInVain.chain.NamesApart :=
    ⟨by decide +kernel, by decide +kernel, by decide +kernel⟩
  obtain ⟨_, _, _, hends, _⟩ := delays_accounted lateAndInVain (fun _ => .constant 40 60) hscheduled
    hnames rfl (List.mem_singleton.mpr rfl)
  have hlast : lateAndInVain.passes 9 = (lateAndInVain.passes 3) ++
      [⟨.ok (notStabilized "create" (.constant 40 60)),
        [.exchanged (.observation (Step.tallyKey "create")) ⟨.describe "it", .ok .null⟩]⟩] := rfl
  have hinVain : (⟨.ok (notStabilized "create" (.constant 40 60)),
      [.exchanged (.observation (Step.tallyKey "create")) ⟨.describe "it", .ok .null⟩]⟩ :
        PassReport Unit).RunsOutOfLooks lateAndInVain.faults "create" :=
    ⟨⟨_, rfl⟩, [], _, rfl, nofun⟩
  exact ⟨hscheduled, hnames, by decide +kernel, ⟨_, _, hlast, hinVain⟩,
    (hends 9 _ _ hlast).1 hinVain, by decide +kernel⟩

end Run

end Lifecycle
