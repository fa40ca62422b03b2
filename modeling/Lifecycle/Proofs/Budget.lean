import Lifecycle.Proofs.Marks

/-!
# What is left of a step's budget

A step may suspend an operation for three reasons: its request is to be sent again,
its effect does not show yet, or it asks for a cool-down. Counters and marks say how
much of this is used up. No visit gives any of it back (`Visited.spends`): the
counter of requests is reset only when the mark of an accepted request makes it
irrelevant. A visit that suspends the operation uses some of it up
(`Visited.suspensionsLeft_lt`).
-/

namespace Lifecycle

open Json ProgressRecord

variable {M : Type}

/-- A step whose hooks leave the counters of the record alone. -/
structure Step.KeepsCounters (step : Step M) : Prop where
  /-- What the record keeps of an answer is no counter. -/
  capture : ∀ response r, (step.capture response r).counters = r.counters
  /-- What the record keeps of the stable state is no counter. -/
  onComplete : ∀ observed r, (step.onComplete observed r).2.counters = r.counters

/-- The record that a hook leaves on completion has the counters of the one before. -/
theorem Step.KeepsCounters.counters_completed {step : Step M} (h : step.KeepsCounters)
    {observed : Option Value} {completion : Completion} {r r' : ProgressRecord M}
    (hcompletion : step.onComplete observed r = (completion, r')) :
    r'.counters = r.counters := by
  have hcounters := h.onComplete observed r
  rwa [hcompletion] at hcounters

namespace ProgressRecord

/-- Nothing of what steps have used up in one record is given back in another one. -/
structure Spends (r r' : ProgressRecord M) : Prop where
  /-- No mark is cleared. -/
  marks : ∀ key, r.flag key = true → r'.flag key = true
  /-- No look is forgotten. -/
  polls : ∀ name, r.counter (Step.pollsKey name) ≤ r'.counter (Step.pollsKey name)
  /-- No request is forgotten before it is accepted. -/
  throttles : ∀ name, r'.isInvoked name = false →
    r.counter (Step.throttlesKey name) ≤ r'.counter (Step.throttlesKey name)

variable {r r' r'' : ProgressRecord M}

namespace Spends

theorem trans (h : Spends r r') (h' : Spends r' r'') : Spends r r'' := by
  refine ⟨?_, ?_, ?_⟩
  · intro key hset
    exact h'.marks key (h.marks key hset)
  · intro name
    exact UInt32.le_trans (h.polls name) (h'.polls name)
  · intro name hnew
    have hnew' : r'.isInvoked name = false := by
      by_contra hset
      rw [Bool.not_eq_false] at hset
      cases (h'.marks name hset).symm.trans hnew
    exact UInt32.le_trans (h.throttles name hnew') (h'.throttles name hnew)

/-- Records that agree in marks and counters. -/
theorem of_eq (hflags : r'.flags = r.flags) (hcounters : r'.counters = r.counters) :
    Spends r r' := by
  refine ⟨?_, ?_, ?_⟩
  · intro key hset
    rw [flag_congr hflags, hset]
  · intro name
    rw [counter_congr hcounters]
    exact UInt32.le_refl _
  · intro name _
    rw [counter_congr hcounters]
    exact UInt32.le_refl _

/-- Setting a mark. -/
theorem mark (r : ProgressRecord M) (key : String) : Spends r (r.mark key) :=
  ⟨fun _ hset => flag_mark_of_flag hset key, fun _ => UInt32.le_refl _, fun _ _ => UInt32.le_refl _⟩

/-- Raising a counter. -/
theorem increment (r : ProgressRecord M) (key : String) : Spends r (r.increment key) := by
  have hle : ∀ other, r.counter other ≤ (r.increment key).counter other := by
    intro other
    by_cases hkey : key = other
    · rw [hkey, counter_increment_self]
      exact UInt32.le_iff_toNat_le.mpr (le_nextCount _)
    · rw [counter_increment_ne r hkey]
      exact UInt32.le_refl _
  exact ⟨fun _ hset => hset, fun _ => hle _, fun _ _ => hle _⟩

/-- Forgetting favourable verdicts. -/
theorem resetTally (r : ProgressRecord M) (name : String) :
    Spends r (r.resetCounter (Step.tallyKey name)) := by
  refine ⟨fun _ hset => hset, ?_, ?_⟩
  · intro other
    rw [counter_resetCounter_ne r (Step.tallyKey_ne_pollsKey name other)]
    exact UInt32.le_refl _
  · intro other _
    rw [counter_resetCounter_ne r (Step.tallyKey_ne_throttlesKey name other)]
    exact UInt32.le_refl _

/-- Forgetting the requests of a step that is marked as accepted. -/
theorem resetThrottles (r : ProgressRecord M) {name : String} (hinvoked : r.isInvoked name = true) :
    Spends r (r.resetCounter (Step.throttlesKey name)) := by
  refine ⟨fun _ hset => hset, ?_, ?_⟩
  · intro other
    rw [counter_resetCounter_ne r (Step.pollsKey_ne_throttlesKey other name).symm]
    exact UInt32.le_refl _
  · intro other hnew
    have hne : name ≠ other := by
      rintro rfl
      cases hinvoked.symm.trans hnew
    rw [counter_resetCounter_ne r (mt Step.throttlesKey_inj.mp hne)]
    exact UInt32.le_refl _

end Spends

end ProgressRecord

namespace ProgressRecord

variable {r r' : ProgressRecord M}

/-- How often the request of a step may still be put off. -/
def retriesLeft (policy : BackoffPolicy) (name : String) (r : ProgressRecord M) : Nat :=
  if r.isInvoked name then 0
  else policy.timeout.toNat - (r.counter (Step.throttlesKey name)).toNat

/-- How often the effect of a step's request may still be looked for in vain. -/
def looksLeft (policy : BackoffPolicy) (name : String) (r : ProgressRecord M) : Nat :=
  policy.timeout.toNat - (r.counter (Step.pollsKey name)).toNat

/-- How many cool-downs a step may still have. -/
def coolDownsLeft (name : String) (r : ProgressRecord M) : Nat := if r.isCooled name then 0 else 1

theorem retriesLeft_le (h : Spends r r') (policy : BackoffPolicy) (name : String) :
    r'.retriesLeft policy name ≤ r.retriesLeft policy name := by
  unfold retriesLeft
  cases hnew : r'.isInvoked name with
  | true => exact Nat.zero_le _
  | false =>
    have hnew' : r.isInvoked name = false := by
      by_contra hset
      rw [Bool.not_eq_false] at hset
      cases (h.marks name hset).symm.trans hnew
    have hthrottles := UInt32.le_iff_toNat_le.mp (h.throttles name hnew)
    simp only [hnew', Bool.false_eq_true, if_false]
    omega

theorem looksLeft_le (h : Spends r r') (policy : BackoffPolicy) (name : String) :
    r'.looksLeft policy name ≤ r.looksLeft policy name :=
  Nat.sub_le_sub_left (UInt32.le_iff_toNat_le.mp (h.polls name)) _

theorem coolDownsLeft_le (h : Spends r r') (name : String) :
    r'.coolDownsLeft name ≤ r.coolDownsLeft name := by
  unfold coolDownsLeft
  cases hset : r.isCooled name with
  | true =>
    have hset' : r'.isCooled name = true := h.marks _ hset
    simp [hset']
  | false => split <;> simp

/-- A suspension raises its counter by one, which was below the timeout. -/
theorem counter_increment_of_delay {policy : BackoffPolicy} {key : String} {delay : UInt64}
    (htimeout : policy.timeout.toNat < UInt32.size)
    (hdelay : policy.nextDelay (r.counter key).toNat = some delay) :
    ((r.increment key).counter key).toNat = (r.counter key).toNat + 1 ∧
      (r.counter key).toNat < policy.timeout.toNat := by
  have hlt := policy.lt_timeout_of_nextDelay hdelay
  rw [counter_increment_self]
  exact ⟨nextCount_toNat (by omega), hlt⟩

/-- A count that is still short of what a step asks for is raised by one. -/
theorem counter_increment_of_short {key : String} {count : Nat} {least : UInt32}
    (hcount : (r.counter key).toNat = count) (hshort : count < max least.toNat 1) :
    ((r.increment key).counter key).toNat = count + 1 := by
  have hlt := least.toNat_lt
  have hsize : UInt32.size = 4294967296 := rfl
  rw [counter_increment_self, nextCount_toNat (by omega), hcount]

theorem retriesLeft_increment_lt {policy : BackoffPolicy} {name : String} {delay : UInt64}
    (htimeout : policy.timeout.toNat < UInt32.size) (hnew : r.isInvoked name = false)
    (hdelay : policy.nextDelay (r.counter (Step.throttlesKey name)).toNat = some delay) :
    (r.increment (Step.throttlesKey name)).retriesLeft policy name < r.retriesLeft policy name := by
  obtain ⟨hraised, hlt⟩ := counter_increment_of_delay htimeout hdelay
  have hnew' : (r.increment (Step.throttlesKey name)).isInvoked name = false := hnew
  simp only [retriesLeft, hnew, hnew', hraised, Bool.false_eq_true, if_false]
  omega

theorem looksLeft_increment_lt {policy : BackoffPolicy} {name : String} {delay : UInt64}
    (htimeout : policy.timeout.toNat < UInt32.size)
    (hdelay : policy.nextDelay (r.counter (Step.pollsKey name)).toNat = some delay) :
    (r.increment (Step.pollsKey name)).looksLeft policy name < r.looksLeft policy name := by
  obtain ⟨hraised, hlt⟩ := counter_increment_of_delay htimeout hdelay
  simp only [looksLeft, hraised]
  omega

theorem coolDownsLeft_markCooled_lt {name : String} (hnew : r.isCooled name = false) :
    (r.markCooled name).coolDownsLeft name < r.coolDownsLeft name := by
  have hset : (r.markCooled name).isCooled name = true := flag_mark_self r _
  simp [coolDownsLeft, hnew, hset]

/-- How many suspensions a step may still cause. -/
def suspensionsLeft (config : ChainConfig) (polling : BackoffPolicy) (name : String)
    (r : ProgressRecord M) : Nat :=
  r.retriesLeft config.throttling name + r.looksLeft polling name + r.coolDownsLeft name

/-- What is used up is not left again. -/
theorem suspensionsLeft_le (h : Spends r r') (config : ChainConfig) (polling : BackoffPolicy)
    (name : String) :
    r'.suspensionsLeft config polling name ≤ r.suspensionsLeft config polling name := by
  have hretries := retriesLeft_le h config.throttling name
  have hlooks := looksLeft_le h polling name
  have hcoolDowns := coolDownsLeft_le h name
  unfold suspensionsLeft
  omega

/-- A step never causes more suspensions than its schedules have seconds, and one more. -/
theorem suspensionsLeft_le_timeouts (config : ChainConfig) (polling : BackoffPolicy) (name : String)
    (r : ProgressRecord M) : r.suspensionsLeft config polling name ≤
      config.throttling.timeout.toNat + polling.timeout.toNat + 1 := by
  unfold suspensionsLeft retriesLeft looksLeft coolDownsLeft
  split <;> split <;> omega

end ProgressRecord

namespace Chain

variable {faults : FaultTable} {config : ChainConfig} {remote : Remote} {target : Target M}
  {step : Step M} {r r' : ProgressRecord M} {past gained : Journal}

@[simp] theorem counters_seed (target : Target M) (r : ProgressRecord M) :
    (seed target r).counters = r.counters := by
  unfold seed
  cases r.model <;> rfl

/-- A request that is put off uses up one of the times that it may be. -/
theorem Issued.suspensionsLeft_lt {polling : BackoffPolicy} {outcome : Outcome M}
    (hthrottling : config.throttling.timeout.toNat < UInt32.size)
    (hnew : r.isInvoked step.name = false)
    (h : Issued faults config remote target step r past (.ok (.halted outcome)) gained)
    (hleft : outcome.progress? = some r') :
    Spends r r' ∧ r'.suspensionsLeft config polling step.name <
      r.suspensionsLeft config polling step.name := by
  cases h with
  | refused => simp [Outcome.ofFault, Outcome.progress?] at hleft
  | retried _ _ _ _ hsuspended =>
    obtain ⟨delay, hdelay, rfl⟩ := hsuspended.eq_increment rfl hleft
    have hspends := Spends.increment r (Step.throttlesKey step.name)
    have hretries := retriesLeft_increment_lt hthrottling hnew hdelay
    have hlooks := looksLeft_le hspends polling step.name
    have hcoolDowns := coolDownsLeft_le hspends step.name
    refine ⟨hspends, ?_⟩
    unfold suspensionsLeft
    omega

/-- When a request is accepted, no counter is lost but that of the requests. -/
theorem counter_acceptedRecord_ne (hcounters : step.KeepsCounters) (response : Value)
    (r : ProgressRecord M) {key : String} (hne : Step.throttlesKey step.name ≠ key) :
    (acceptedRecord step response r).counter key = r.counter key := by
  rw [acceptedRecord, counter_congr (hcounters.capture _ _)]
  exact counter_resetCounter_ne _ hne

/-- Accepting a request gives nothing back. -/
theorem Accepted.spends (hmarks : step.KeepsMarks) (hcounters : step.KeepsCounters)
    (h : Accepted faults config remote target step r past r' gained) : Spends r r' := by
  cases h with
  | earlier => exact .of_eq rfl rfl
  | now _ hissued =>
    cases hissued with
    | accepted =>
      have hmarked : Spends r (r.markInvoked step.name) := .mark r step.name
      have hreset := Spends.resetThrottles (r.markInvoked step.name) (flag_mark_self r step.name)
      exact (hmarked.trans hreset).trans
        (.of_eq (hmarks.capture _ _) (hcounters.capture _ _))

/-- The verdict of a look gives nothing back. -/
theorem spends_pendingRecord (step : Step M) (favourable : Bool) (r : ProgressRecord M) :
    Spends r (pendingRecord step favourable r) := by
  cases favourable with
  | true => exact .increment r _
  | false => exact .resetTally r step.name

/-- An effect that shows gives nothing back. -/
theorem Stabilized.spends {observed : Option Value}
    (h : Stabilized faults config remote target step r past (.ok (.ok (observed, r'))) gained) :
    Spends r r' := by
  cases h with
  | undeclared => exact .of_eq rfl rfl
  | stable => exact .increment r _

/-- An effect that does not show uses up one of the times that it may be looked for in vain. -/
theorem Stabilized.suspensionsLeft_lt {polling : BackoffPolicy} {outcome : Outcome M}
    (hpolling : ∀ s, step.stabilization target r = .ok (some s) →
      s.policy.getD config.stabilization = polling)
    (htimeout : polling.timeout.toNat < UInt32.size)
    (h : Stabilized faults config remote target step r past (.ok (.error outcome)) gained)
    (hleft : outcome.progress? = some r') :
    Spends r r' ∧ r'.suspensionsLeft config polling step.name <
      r.suspensionsLeft config polling step.name := by
  cases h with
  | refused => simp [Outcome.ofFault, Outcome.progress?] at hleft
  | @pending s favourable _ _ _ hdeclared _ _ hsuspended =>
    obtain ⟨delay, hdelay, rfl⟩ := hsuspended.eq_increment rfl hleft
    rw [hpolling s hdeclared] at hdelay
    have hverdict := spends_pendingRecord step favourable r
    have hspends := Spends.increment (pendingRecord step favourable r) (Step.pollsKey step.name)
    have hbefore := suspensionsLeft_le hverdict config polling step.name
    have hretries := retriesLeft_le hspends config.throttling step.name
    have hlooks := looksLeft_increment_lt htimeout hdelay
    have hcoolDowns := coolDownsLeft_le hspends step.name
    refine ⟨hverdict.trans hspends, ?_⟩
    unfold suspensionsLeft at hbefore ⊢
    omega

/-- Completing a step gives nothing back. -/
theorem Completed.spends {observed : Option Value} (hmarks : step.KeepsMarks)
    (hcounters : step.KeepsCounters) (h : Completed step observed r (.ok r') gained) :
    Spends r r' := by
  cases h with
  | @advanced _ r' hcompletion =>
    exact Spends.trans (.of_eq (hmarks.flags_completed hcompletion)
      (hcounters.counters_completed hcompletion)) (.mark r' _)

/-- A cool-down uses up the one that a step may have. -/
theorem Completed.suspensionsLeft_lt (config : ChainConfig) (polling : BackoffPolicy)
    {observed : Option Value} {outcome : Outcome M} (hmarks : step.KeepsMarks)
    (hcounters : step.KeepsCounters)
    (h : Completed step observed r (.error outcome) gained)
    (hleft : outcome.progress? = some r') :
    Spends r r' ∧ r'.suspensionsLeft config polling step.name <
      r.suspensionsLeft config polling step.name := by
  cases h with
  | @cooling _ r₁ hcompletion hnew =>
    obtain rfl := Option.some.inj hleft
    have hcompleted : Spends r r₁ := .of_eq (hmarks.flags_completed hcompletion)
      (hcounters.counters_completed hcompletion)
    have hspends : Spends r₁ (r₁.markCooled step.name) := .mark r₁ _
    have hbefore := suspensionsLeft_le hcompleted config polling step.name
    have hretries := retriesLeft_le hspends config.throttling step.name
    have hlooks := looksLeft_le hspends polling step.name
    have hcoolDowns := coolDownsLeft_markCooled_lt hnew
    refine ⟨hcompleted.trans hspends, ?_⟩
    unfold suspensionsLeft at hbefore ⊢
    omega

/-- A visit that completes a step gives nothing back. -/
theorem Visited.spends (hmarks : step.KeepsMarks) (hcounters : step.KeepsCounters)
    (h : Visited faults config remote target step r past (.ok (.ok r')) gained) : Spends r r' := by
  cases h with
  | tolerated => exact .mark r _
  | shown haccepted hstabilized hcompleted =>
    exact ((haccepted.spends hmarks hcounters).trans hstabilized.spends).trans
      (hcompleted.spends hmarks hcounters)

/-- A visit that suspends the operation gives nothing back and uses up one of the suspensions that
the step may cause. -/
theorem Visited.suspensionsLeft_lt {polling : BackoffPolicy} {outcome : Outcome M}
    (hmarks : step.KeepsMarks) (hcounters : step.KeepsCounters)
    (hthrottling : config.throttling.timeout.toNat < UInt32.size)
    (hpolling : ∀ r s, step.stabilization target r = .ok (some s) →
      s.policy.getD config.stabilization = polling)
    (htimeout : polling.timeout.toNat < UInt32.size)
    (h : Visited faults config remote target step r past (.ok (.error outcome)) gained)
    (hleft : outcome.progress? = some r') :
    Spends r r' ∧ r'.suspensionsLeft config polling step.name <
      r.suspensionsLeft config polling step.name := by
  cases h with
  | halted hnew hissued => exact hissued.suspensionsLeft_lt hthrottling hnew hleft
  | @unstable r₁ _ _ _ haccepted hstabilized =>
    have hfirst := haccepted.spends hmarks hcounters
    obtain ⟨hspends, hlt⟩ := hstabilized.suspensionsLeft_lt (hpolling r₁) htimeout hleft
    have hbefore := suspensionsLeft_le hfirst config polling step.name
    exact ⟨hfirst.trans hspends, by omega⟩
  | shown haccepted hstabilized hcompleted =>
    have hfirst := (haccepted.spends hmarks hcounters).trans hstabilized.spends
    obtain ⟨hspends, hlt⟩ := hcompleted.suspensionsLeft_lt config polling hmarks hcounters hleft
    have hbefore := suspensionsLeft_le hfirst config polling step.name
    exact ⟨hfirst.trans hspends, by omega⟩

end Chain

end Lifecycle
