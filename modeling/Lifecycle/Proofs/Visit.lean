import Lifecycle.Chain

/-!
# What a visit to a step can do

`issue`, `stabilize`, `complete` and `visit` are sessions. For each of them a
relation lists the ways it can go: what comes of it, and which entries the journal
gains. `exists_visited` says that every visit goes one of these ways, so that a
property of visits is settled by cases on the relations, one for each part of a
visit, and never by running a session again.
-/

namespace Lifecycle

open Json

/-- Whether an entry says only that time is to pass. -/
def Entry.isPause : Entry → Bool
  | .waited .. => true
  | .suspended .. => true
  | _ => false

namespace Chain

variable {M : Type}

/-- The entries that a step's wait in place leaves. -/
def settling (step : Step M) (r : ProgressRecord M) : Journal :=
  (step.settle r).toList.map (.waited step.name)

/-- The entry that a step's own request leaves. -/
def sent (step : Step M) (request : RemoteRequest) (answer : Answer) : Entry :=
  .exchanged (.mutation step.name) ⟨.invoke request, answer⟩

/-- The entry that a look for the effect of a step's request leaves. -/
def looked (step : Step M) (s : Stabilization) (answer : Answer) : Entry :=
  .exchanged (.observation (Step.tallyKey step.name)) ⟨s.probe.call, answer⟩

/-- The record right after the request of a step was accepted. -/
def acceptedRecord (step : Step M) (response : Value) (r : ProgressRecord M) : ProgressRecord M :=
  step.capture response ((r.markInvoked step.name).resetCounter (Step.throttlesKey step.name))

/-- The record right after a look that is not yet good enough. -/
def pendingRecord (step : Step M) (favourable : Bool) (r : ProgressRecord M) : ProgressRecord M :=
  if favourable then r.increment (Step.tallyKey step.name)
  else r.resetCounter (Step.tallyKey step.name)

section Relations

variable (faults : FaultTable) (config : ChainConfig) (remote : Remote) (target : Target M)
  (step : Step M)

/-- How an operation is suspended at a step, or ended because the schedule is spent. -/
inductive Suspended (cause : SuspensionCause) (policy : BackoffPolicy) (counter : String)
    (r : ProgressRecord M) (exhausted : Outcome M) : Outcome M → Journal → Prop
  /-- The schedule has a delay left. -/
  | postponed {delay : UInt64} (hdelay : policy.nextDelay (r.counter counter).toNat = some delay) :
      Suspended cause policy counter r exhausted (.inProgress delay (r.increment counter))
        [.suspended step.name cause delay]
  /-- The schedule is spent. -/
  | spent (hspent : policy.nextDelay (r.counter counter).toNat = none) :
      Suspended cause policy counter r exhausted exhausted []

/-- How sending the request of a step goes. -/
inductive Issued (r : ProgressRecord M) (past : Journal) :
    Except Defect (Issue M) → Journal → Prop
  /-- There is no request to send. -/
  | defect {defect : Defect} (hrequest : step.request target r = .error defect) :
      Issued r past (.error defect) (settling step r)
  /-- The request is accepted. -/
  | accepted {request : RemoteRequest} {response : Value}
      (hrequest : step.request target r = .ok request)
      (hanswer : remote past.exchanges (.invoke request) = .ok response) :
      Issued r past (.ok (.accepted (acceptedRecord step response r)))
        (settling step r ++ [sent step request (.ok response)])
  /-- The request meets a fault that the step can live with. -/
  | tolerated {request : RemoteRequest} {fault : Fault}
      (hrequest : step.request target r = .ok request)
      (hanswer : remote past.exchanges (.invoke request) = .error fault)
      (hsuppress : step.suppress (faults.classify fault) target = true) :
      Issued r past (.ok .tolerated)
        (settling step r ++ [sent step request (.error fault), .tolerated step.name])
  /-- The request is turned away and waits for another pass, as long as the schedule lasts. -/
  | retried {request : RemoteRequest} {fault : Fault} {outcome : Outcome M} {gained : Journal}
      (hrequest : step.request target r = .ok request)
      (hanswer : remote past.exchanges (.invoke request) = .error fault)
      (hsuppress : step.suppress (faults.classify fault) target = false)
      (hretryable : (faults.classify fault).isRetryable = true)
      (hsuspended : Suspended step .retry config.throttling (Step.throttlesKey step.name) r
        (.failed .generalServiceException fault.message) outcome gained) :
      Issued r past (.ok (.halted outcome))
        (settling step r ++ sent step request (.error fault) :: gained)
  /-- The request meets a fault that ends the operation. -/
  | refused {request : RemoteRequest} {fault : Fault}
      (hrequest : step.request target r = .ok request)
      (hanswer : remote past.exchanges (.invoke request) = .error fault)
      (hsuppress : step.suppress (faults.classify fault) target = false)
      (hterminal : (faults.classify fault).isRetryable = false) :
      Issued r past (.ok (.halted (.ofFault (faults.classify fault))))
        (settling step r ++ [sent step request (.error fault)])

/-- The verdict on what a look would see now. -/
def verdict (s : Stabilization) (past : Journal) : Except ClassifiedFault (Bool × Option Value) :=
  Poll.judge (step.isStable · target)
    ((remote past.exchanges s.probe.call).mapError faults.classify)

/-- How looking for the effect of a step's request goes. -/
inductive Stabilized (r : ProgressRecord M) (past : Journal) :
    Except Defect (Except (Outcome M) (Option Value × ProgressRecord M)) → Journal → Prop
  /-- There is no telling how to look. -/
  | defect {defect : Defect} (hdeclared : step.stabilization target r = .error defect) :
      Stabilized r past (.error defect) []
  /-- There is nothing to wait for. -/
  | undeclared (hdeclared : step.stabilization target r = .ok none) :
      Stabilized r past (.ok (.ok (none, r))) []
  /-- The look meets a fault that ends the operation. -/
  | refused {s : Stabilization} {fault : ClassifiedFault}
      (hdeclared : step.stabilization target r = .ok (some s))
      (hverdict : verdict faults remote target step s past = .error fault) :
      Stabilized r past (.ok (.error (.ofFault fault)))
        [looked step s (remote past.exchanges s.probe.call)]
  /-- Enough favourable verdicts in a row. -/
  | stable {s : Stabilization} {observed : Option Value}
      (hdeclared : step.stabilization target r = .ok (some s))
      (hverdict : verdict faults remote target step s past = .ok (true, observed))
      (henough : max s.minObservations 1 ≤
        (r.increment (Step.tallyKey step.name)).counter (Step.tallyKey step.name)) :
      Stabilized r past (.ok (.ok (observed, r.increment (Step.tallyKey step.name))))
        [looked step s (remote past.exchanges s.probe.call)]
  /-- Not yet, as long as the schedule lasts. -/
  | pending {s : Stabilization} {favourable : Bool} {observed : Option Value}
      {outcome : Outcome M} {gained : Journal}
      (hdeclared : step.stabilization target r = .ok (some s))
      (hverdict : verdict faults remote target step s past = .ok (favourable, observed))
      (hshort : favourable = true →
        (r.increment (Step.tallyKey step.name)).counter (Step.tallyKey step.name) <
          max s.minObservations 1)
      (hsuspended : Suspended step .pending (s.policy.getD config.stabilization)
        (Step.pollsKey step.name) (pendingRecord step favourable r)
        (notStabilized step.name (s.policy.getD config.stabilization)) outcome gained) :
      Stabilized r past (.ok (.error outcome))
        (looked step s (remote past.exchanges s.probe.call) :: gained)

/-- How completing a step goes. -/
inductive Completed (observed : Option Value) (r : ProgressRecord M) :
    Except (Outcome M) (ProgressRecord M) → Journal → Prop
  /-- The cool-down that the step asks for is still to be served. -/
  | cooling {delay : UInt64} {r' : ProgressRecord M}
      (hcompletion : step.onComplete observed r = (.coolDown delay, r'))
      (hnew : r'.isCooled step.name = false) :
      Completed observed r (.error (.inProgress delay (r'.markCooled step.name)))
        [.suspended step.name .coolDown delay]
  /-- Nothing keeps the step from being complete. -/
  | advanced {completion : Completion} {r' : ProgressRecord M}
      (hcompletion : step.onComplete observed r = (completion, r'))
      (hserved : completion = .advance ∨ r'.isCooled step.name = true) :
      Completed observed r (.ok (r'.markDone step.name)) [.completed step.name]

/-- The request of a step is accepted, in an earlier pass or now; the record and the entries that
this leaves. -/
inductive Accepted (r : ProgressRecord M) (past : Journal) : ProgressRecord M → Journal → Prop
  /-- In an earlier pass. -/
  | earlier (hinvoked : r.isInvoked step.name = true) : Accepted r past r []
  /-- In this pass. -/
  | now {r' : ProgressRecord M} {gained : Journal} (hnew : r.isInvoked step.name = false)
      (hissued : Issued faults config remote target step r past (.ok (.accepted r')) gained) :
      Accepted r past r' gained

/-- How a visit to a step goes. -/
inductive Visited (r : ProgressRecord M) (past : Journal) :
    Except Defect (Except (Outcome M) (ProgressRecord M)) → Journal → Prop
  /-- The request cannot be made. -/
  | unmade {defect : Defect} {gained : Journal} (hnew : r.isInvoked step.name = false)
      (hissued : Issued faults config remote target step r past (.error defect) gained) :
      Visited r past (.error defect) gained
  /-- The request is not accepted. -/
  | halted {outcome : Outcome M} {gained : Journal} (hnew : r.isInvoked step.name = false)
      (hissued : Issued faults config remote target step r past (.ok (.halted outcome)) gained) :
      Visited r past (.ok (.error outcome)) gained
  /-- The step lives with the fault that its request meets. -/
  | tolerated {gained : Journal} (hnew : r.isInvoked step.name = false)
      (hissued : Issued faults config remote target step r past (.ok .tolerated) gained) :
      Visited r past (.ok (.ok (r.markDone step.name))) gained
  /-- The request is accepted, and there is no telling how to look for its effect. -/
  | unseen {r₁ : ProgressRecord M} {defect : Defect} {first second : Journal}
      (haccepted : Accepted faults config remote target step r past r₁ first)
      (hstabilized : Stabilized faults config remote target step r₁ (past ++ first)
        (.error defect) second) :
      Visited r past (.error defect) (first ++ second)
  /-- The request is accepted, and its effect does not show. -/
  | unstable {r₁ : ProgressRecord M} {outcome : Outcome M} {first second : Journal}
      (haccepted : Accepted faults config remote target step r past r₁ first)
      (hstabilized : Stabilized faults config remote target step r₁ (past ++ first)
        (.ok (.error outcome)) second) :
      Visited r past (.ok (.error outcome)) (first ++ second)
  /-- The request is accepted, and its effect shows. -/
  | shown {r₁ r₂ : ProgressRecord M} {observed : Option Value}
      {result : Except (Outcome M) (ProgressRecord M)} {first second third : Journal}
      (haccepted : Accepted faults config remote target step r past r₁ first)
      (hstabilized : Stabilized faults config remote target step r₁ (past ++ first)
        (.ok (.ok (observed, r₂))) second)
      (hcompleted : Completed step observed r₂ result third) :
      Visited r past (.ok result) (first ++ second ++ third)

/-- Suspending goes one of the ways listed. -/
theorem exists_suspended (cause : SuspensionCause) (policy : BackoffPolicy) (counter : String)
    (r : ProgressRecord M) (exhausted : Outcome M) (past : Journal) :
    ∃ outcome gained, (suspend step.name cause policy counter r exhausted).run remote past =
        (.ok outcome, past ++ gained) ∧
      Suspended step cause policy counter r exhausted outcome gained := by
  unfold suspend
  cases hdelay : policy.nextDelay (r.counter counter).toNat with
  | some delay =>
    refine ⟨_, _, ?_, .postponed hdelay⟩
    simp [Session.run_map]
  | none =>
    refine ⟨exhausted, [], ?_, .spent hdelay⟩
    simp

@[simp] theorem exchanges_settling (past : Journal) (r : ProgressRecord M) :
    (past ++ settling step r).exchanges = past.exchanges := by
  unfold settling
  cases step.settle r <;> simp [Journal.exchanges]

/-- The wait in place leaves its entries and does nothing else. -/
theorem run_issue_settle (r : ProgressRecord M) (past : Journal) :
    (issue faults config target step r).run remote past =
      (issue faults config target { step with settle := fun _ => none } r).run remote
        (past ++ settling step r) := by
  unfold issue settling
  cases step.settle r <;> simp [Session.run_bind]

/-- Sending a request goes one of the ways listed. -/
theorem exists_issued (r : ProgressRecord M) (past : Journal) :
    ∃ result gained, (issue faults config target step r).run remote past =
        (result, past ++ gained) ∧
      Issued faults config remote target step r past result gained := by
  rw [run_issue_settle]
  unfold issue
  cases hrequest : step.request target r with
  | error defect =>
    refine ⟨_, _, ?_, .defect hrequest⟩
    simp [Session.run_bind]
  | ok request =>
    cases hanswer : remote past.exchanges (.invoke request) with
    | ok response =>
      refine ⟨_, _, ?_, .accepted hrequest hanswer⟩
      simp [Session.run_bind, hanswer, acceptedRecord, sent]
    | error fault =>
      cases hsuppress : step.suppress (faults.classify fault) target with
      | true =>
        refine ⟨_, _, ?_, .tolerated hrequest hanswer hsuppress⟩
        simp [Session.run_bind, Session.run_map, hanswer, hsuppress, sent]
      | false =>
        cases hretryable : (faults.classify fault).isRetryable with
        | false =>
          refine ⟨_, _, ?_, .refused hrequest hanswer hsuppress hretryable⟩
          simp [Session.run_bind, hanswer, hsuppress, hretryable, sent]
        | true =>
          obtain ⟨outcome, gained, hrun, hsuspended⟩ := exists_suspended remote step
            .retry config.throttling (Step.throttlesKey step.name) r
            (.failed .generalServiceException fault.message)
            (past ++ settling step r ++ [sent step request (.error fault)])
          refine ⟨_, _, ?_, .retried hrequest hanswer hsuppress hretryable hsuspended⟩
          simp only [sent, List.append_assoc, List.singleton_append] at hrun
          simp [Session.run_bind, Session.run_map, hanswer, hsuppress, hretryable, sent, hrun]

/-- Looking for the effect of a request goes one of the ways listed. -/
theorem exists_stabilized (r : ProgressRecord M) (past : Journal) :
    ∃ result gained, (stabilize faults config target step r).run remote past =
        (result, past ++ gained) ∧
      Stabilized faults config remote target step r past result gained := by
  unfold stabilize
  cases hdeclared : step.stabilization target r with
  | error defect =>
    refine ⟨_, [], ?_, .defect hdeclared⟩
    simp [Session.run_bind]
  | ok declared =>
    cases declared with
    | none =>
      refine ⟨_, [], ?_, .undeclared hdeclared⟩
      simp [Session.run_bind]
    | some s =>
      cases hverdict : verdict faults remote target step s past with
      | error fault =>
        refine ⟨_, _, ?_, .refused hdeclared hverdict⟩
        rw [verdict] at hverdict
        simp [Session.run_bind, hverdict, Except.map, looked]
      | ok seen =>
        obtain ⟨favourable, observed⟩ := seen
        have hjudged := hverdict
        rw [verdict] at hjudged
        by_cases henough : favourable = true ∧ max s.minObservations 1 ≤
            (r.increment (Step.tallyKey step.name)).counter (Step.tallyKey step.name)
        · obtain ⟨rfl, hleast⟩ := henough
          refine ⟨_, _, ?_, .stable hdeclared hverdict hleast⟩
          simp only [Session.run_bind, Session.run_orDefect_ok, Poll.run_once, hjudged, Except.map,
            Poll.tallyUp_of_le hleast, Session.run_pure, looked]
        · have hshort : favourable = true →
              (r.increment (Step.tallyKey step.name)).counter (Step.tallyKey step.name) <
                max s.minObservations 1 := by
            intro hf
            exact UInt32.not_le.mp fun hleast => henough ⟨hf, hleast⟩
          obtain ⟨outcome, gained, hrun, hsuspended⟩ := exists_suspended remote step .pending
            (s.policy.getD config.stabilization) (Step.pollsKey step.name)
            (pendingRecord step favourable r)
            (notStabilized step.name (s.policy.getD config.stabilization))
            (past ++ [looked step s (remote past.exchanges s.probe.call)])
          refine ⟨_, _, ?_, .pending hdeclared hverdict hshort hsuspended⟩
          simp only [looked, pendingRecord, List.append_assoc, List.singleton_append] at hrun
          simp only [Session.run_bind, Session.run_orDefect_ok, Poll.run_once, hjudged, Except.map,
            Poll.tallyUp_of_lt hshort, Session.run_map, hrun, looked]

/-- Completing a step goes one of the ways listed. -/
theorem exists_completed (observed : Option Value) (r : ProgressRecord M) (past : Journal) :
    ∃ result gained, (complete step observed r).run remote past = (.ok result, past ++ gained) ∧
      Completed step observed r result gained := by
  unfold complete
  cases hcompletion : step.onComplete observed r with
  | mk completion r' =>
    cases completion with
    | advance =>
      refine ⟨_, _, ?_, .advanced hcompletion (.inl rfl)⟩
      simp [Session.run_map]
    | coolDown delay =>
      cases hcooled : r'.isCooled step.name with
      | true =>
        refine ⟨_, _, ?_, .advanced hcompletion (.inr hcooled)⟩
        simp [Session.run_map, hcooled]
      | false =>
        refine ⟨_, _, ?_, .cooling hcompletion hcooled⟩
        simp [Session.run_map, hcooled]

/-- The rest of a visit once the request is accepted. -/
def follow (faults : FaultTable) (config : ChainConfig) (target : Target M) (step : Step M)
    (r : ProgressRecord M) : Session (Except (Outcome M) (ProgressRecord M)) := do
  match ← stabilize faults config target step r with
  | .error outcome => return .error outcome
  | .ok (observed, r) => complete step observed r

variable {faults config remote target step} in
/-- Once the request is accepted, the visit goes on in one of the ways listed. -/
theorem exists_visited_of_accepted {r r₁ : ProgressRecord M} {past first : Journal}
    (haccepted : Accepted faults config remote target step r past r₁ first) :
    ∃ result gained, (follow faults config target step r₁).run remote (past ++ first) =
        (result, past ++ gained) ∧
      Visited faults config remote target step r past result gained := by
  obtain ⟨result, second, hrun, hstabilized⟩ := exists_stabilized faults config remote target
    step r₁ (past ++ first)
  rcases result with defect | outcome | ⟨observed, r₂⟩
  · refine ⟨_, _, ?_, .unseen haccepted hstabilized⟩
    simp only [follow, Session.run_bind, hrun, List.append_assoc]
  · refine ⟨_, _, ?_, .unstable haccepted hstabilized⟩
    simp only [follow, Session.run_bind, hrun, Session.run_pure, List.append_assoc]
  · obtain ⟨result, third, hcomplete, hcompleted⟩ :=
      exists_completed remote step observed r₂ (past ++ first ++ second)
    refine ⟨_, _, ?_, .shown haccepted hstabilized hcompleted⟩
    simp only [follow, Session.run_bind, hrun, hcomplete]
    simp only [List.append_assoc]

/-- Every visit goes one of the ways listed. -/
theorem exists_visited (r : ProgressRecord M) (past : Journal) :
    ∃ result gained, (visit faults config target step r).run remote past =
        (result, past ++ gained) ∧
      Visited faults config remote target step r past result gained := by
  cases hnew : r.isInvoked step.name with
  | true =>
    have haccepted : Accepted faults config remote target step r past r [] := .earlier hnew
    obtain ⟨result, gained, hrun, hvisited⟩ := exists_visited_of_accepted haccepted
    refine ⟨result, gained, ?_, hvisited⟩
    rw [List.append_nil] at hrun
    simp only [visit, hnew, if_true, pure_bind]
    exact hrun
  | false =>
    obtain ⟨result, first, hissue, hissued⟩ := exists_issued faults config remote target step
      r past
    rcases result with defect | r₁ | _ | outcome
    · refine ⟨_, _, ?_, .unmade hnew hissued⟩
      simp [visit, hnew, Session.run_bind, hissue]
    · obtain ⟨result, gained, hrun, hvisited⟩ := exists_visited_of_accepted (.now hnew hissued)
      refine ⟨result, gained, ?_, hvisited⟩
      simp only [visit, hnew, Bool.false_eq_true, if_false, Session.run_bind, hissue]
      rw [follow, Session.run_bind] at hrun
      exact hrun
    · refine ⟨_, _, ?_, .tolerated hnew hissued⟩
      simp [visit, hnew, Session.run_bind, hissue]
    · refine ⟨_, _, ?_, .halted hnew hissued⟩
      simp [visit, hnew, Session.run_bind, hissue]

variable {faults config remote target step} in
/-- What a visit did is one of the ways listed. -/
theorem visited_of_run {r : ProgressRecord M} {past journal : Journal}
    {result : Except Defect (Except (Outcome M) (ProgressRecord M))}
    (h : (visit faults config target step r).run remote past = (result, journal)) :
    ∃ gained, journal = past ++ gained ∧
      Visited faults config remote target step r past result gained := by
  obtain ⟨result', gained, hrun, hvisited⟩ := exists_visited faults config remote target step
    r past
  rw [hrun] at h
  obtain ⟨rfl, rfl⟩ := Prod.mk.inj h
  exact ⟨gained, rfl, hvisited⟩

end Relations

/-- The greater of two counts, as a number. -/
theorem toNat_max (a b : UInt32) : (max a b).toNat = max a.toNat b.toNat := by
  rw [show max a b = if a ≤ b then b else a from rfl]
  split
  · next h => rw [Nat.max_eq_right (UInt32.le_iff_toNat_le.mp h)]
  · next h =>
    rw [UInt32.le_iff_toNat_le] at h
    rw [Nat.max_eq_left (by omega)]

/-- When one more favourable verdict is not enough, more than one is asked for. -/
theorem one_lt_of_short {r : ProgressRecord M} {tally : String} {least : UInt32}
    (h : (r.increment tally).counter tally < max least 1) : 1 < least := by
  have hpos := ProgressRecord.nextCount_pos (r.counter tally)
  rw [ProgressRecord.counter_increment_self, UInt32.lt_iff_toNat_lt, toNat_max] at h
  rw [UInt32.lt_iff_toNat_lt]
  simp only [UInt32.toNat_one] at *
  omega

/-- Before a request there are only pauses. -/
theorem isPause_of_mem_settling {step : Step M} {r : ProgressRecord M} {entry : Entry}
    (h : entry ∈ settling step r) : entry.isPause = true := by
  obtain ⟨seconds, _, rfl⟩ := List.mem_map.mp h
  rfl

/-- What a suspension leaves is a pause. -/
theorem Suspended.isPause {step : Step M} {cause : SuspensionCause} {policy : BackoffPolicy}
    {counter : String} {r : ProgressRecord M} {exhausted outcome : Outcome M} {gained : Journal}
    (h : Suspended step cause policy counter r exhausted outcome gained) :
    ∀ entry ∈ gained, entry.isPause = true := by
  intro entry hentry
  cases h with
  | postponed =>
    obtain rfl := List.mem_singleton.mp hentry
    rfl
  | spent => cases hentry

/-- Suspending raises the counter of its schedule, which has a delay left. -/
theorem Suspended.eq_increment {step : Step M} {cause : SuspensionCause} {policy : BackoffPolicy}
    {counter : String} {r r' : ProgressRecord M} {exhausted outcome : Outcome M} {gained : Journal}
    (h : Suspended step cause policy counter r exhausted outcome gained)
    (hexhausted : exhausted.progress? = none) (hleft : outcome.progress? = some r') :
    ∃ delay, policy.nextDelay (r.counter counter).toNat = some delay ∧
      r' = r.increment counter := by
  cases h with
  | postponed hdelay => exact ⟨_, hdelay, (Option.some.inj hleft).symm⟩
  | spent => simp [hexhausted] at hleft

/-- A verdict is favourable when the state that the service describes shows the effect, or when the
service knows no such resource and that is what is waited for. -/
theorem favourable_of_verdict {faults : FaultTable} {remote : Remote} {target : Target M}
    {step : Step M} {s : Stabilization} {past : Journal} {observed : Option Value}
    (h : verdict faults remote target step s past = .ok (true, observed)) :
    (∃ state, remote past.exchanges s.probe.call = .ok state ∧ observed = some state ∧
      step.isStable (.present state) target = true) ∨
    ((∃ fault, remote past.exchanges s.probe.call = .error fault ∧
        (faults.classify fault).isNotFound = true) ∧
      observed = none ∧ step.isStable .absent target = true) := by
  rw [verdict] at h
  cases hanswer : remote past.exchanges s.probe.call with
  | ok state =>
    rw [hanswer] at h
    obtain ⟨hstable, hobserved⟩ := Prod.mk.inj (Except.ok.inj h)
    exact .inl ⟨state, rfl, hobserved.symm, hstable⟩
  | error fault =>
    rw [hanswer, Session.mapError_classify_error, Poll.judge] at h
    split at h
    · next hgone =>
      obtain ⟨hstable, hobserved⟩ := Prod.mk.inj (Except.ok.inj h)
      exact .inr ⟨⟨fault, rfl, hgone⟩, hobserved.symm, hstable⟩
    · split at h <;> cases h

end Chain

end Lifecycle
