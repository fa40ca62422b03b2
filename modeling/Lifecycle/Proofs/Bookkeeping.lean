import Lifecycle.Proofs.Budget
import Lifecycle.Proofs.Completion
import Lifecycle.Proofs.Requests
import Lifecycle.Proofs.Suspensions

/-!
# What a pass writes

Up to the suspension that ends it, a pass sets marks of the steps that it takes up, counts
their favourable verdicts, and forgets how often the requests that are accepted were put off
(`Stretch`). The suspension itself raises one counter or sets one mark (`leave`). No step
writes under a key of another one, so that what the suspension finds is what the pass began
with, and the record that the pass leaves tells which way it was suspended (`Halted`).
-/

namespace Lifecycle

open Json ProgressRecord

variable {M : Type}

namespace ProgressRecord

variable {key other : String}

theorem get?_flags_mark_ne (r : ProgressRecord M) (hne : key ≠ other) :
    (r.mark key).flags.get? other = r.flags.get? other :=
  Dict.get?_insert_ne _ hne _

theorem get?_counters_increment_ne (r : ProgressRecord M) (hne : key ≠ other) :
    (r.increment key).counters.get? other = r.counters.get? other :=
  Dict.get?_insert_ne _ hne _

theorem get?_counters_resetCounter_ne (r : ProgressRecord M) (hne : key ≠ other) :
    (r.resetCounter key).counters.get? other = r.counters.get? other :=
  Dict.get?_erase_ne _ hne

end ProgressRecord

namespace Chain

/-- What a stretch of a pass writes that has no suspension. -/
structure Stretch (touched : String → Prop) (gained : Journal) (r r' : ProgressRecord M) :
    Prop where
  /-- A mark that changes is set, and says of a step that it is invoked or complete. -/
  marks : ∀ key, r'.flags.get? key = r.flags.get? key ∨
    r'.flags.get? key = some true ∧ ∃ name, touched name ∧ (key = name ∨ key = doneKey name)
  /-- A counter that changes counts favourable verdicts, or it counts how often a request was put
  off and is dropped because the request is accepted. -/
  counters : ∀ key, r'.counters.get? key = r.counters.get? key ∨
    ∃ name, touched name ∧ (key = Step.tallyKey name ∨
      key = Step.throttlesKey name ∧ r'.counters.get? key = none ∧
        ∃ entry ∈ gained, entry.accepts name = true)
  /-- Nothing is suspended. -/
  suspensions : gained.suspensions = []

namespace Stretch

variable {touched : String → Prop} {r r₁ r' : ProgressRecord M} {gained first rest : Journal}
  {name : String}

/-- Records that agree in marks and counters. -/
theorem of_eq (hflags : r'.flags = r.flags) (hcounters : r'.counters = r.counters)
    (hgained : gained.suspensions = []) : Stretch touched gained r r' :=
  ⟨fun _ => .inl (by rw [hflags]), fun _ => .inl (by rw [hcounters]), hgained⟩

theorem refl (touched : String → Prop) (r : ProgressRecord M) : Stretch touched [] r r :=
  .of_eq rfl rfl rfl

/-- What is written first stays, unless it is written over by what is written then. -/
theorem append (h : Stretch touched first r r₁) (h' : Stretch touched rest r₁ r') :
    Stretch touched (first ++ rest) r r' := by
  refine ⟨?_, ?_, ?_⟩
  · intro key
    rcases h'.marks key with heq | hset
    · rw [heq]
      exact h.marks key
    · exact .inr hset
  · intro key
    rcases h'.counters key with heq | ⟨name, hname, htally | ⟨hkey, hnone, entry, hentry, haccepts⟩⟩
    · rw [heq]
      refine (h.counters key).imp_right ?_
      rintro ⟨name, hname, htally | ⟨hkey, hnone, entry, hentry, haccepts⟩⟩
      · exact ⟨name, hname, .inl htally⟩
      · exact ⟨name, hname, .inr ⟨hkey, hnone, entry, List.mem_append_left _ hentry, haccepts⟩⟩
    · exact .inr ⟨name, hname, .inl htally⟩
    · exact .inr ⟨name, hname,
        .inr ⟨hkey, hnone, entry, List.mem_append_right _ hentry, haccepts⟩⟩
  · rw [Journal.suspensions_append, h.suspensions, h'.suspensions, List.nil_append]

theorem mono {touched' : String → Prop} (h : Stretch touched gained r r')
    (himp : ∀ name, touched name → touched' name) : Stretch touched' gained r r' := by
  refine ⟨?_, ?_, h.suspensions⟩
  · intro key
    refine (h.marks key).imp_right ?_
    rintro ⟨hset, name, hname, hkey⟩
    exact ⟨hset, name, himp name hname, hkey⟩
  · intro key
    refine (h.counters key).imp_right ?_
    rintro ⟨name, hname, hkey⟩
    exact ⟨name, himp name hname, hkey⟩

/-- Setting a mark of a step. -/
theorem mark {key : String} (hkey : key = name ∨ key = doneKey name)
    (hflags : r'.flags = (r.mark key).flags) (hcounters : r'.counters = r.counters)
    (hgained : gained.suspensions = []) : Stretch (· = name) gained r r' := by
  refine ⟨?_, fun _ => .inl (by rw [hcounters]), hgained⟩
  intro other
  rw [hflags]
  by_cases hne : key = other
  · rw [← hne]
    exact .inr ⟨Dict.get?_insert_self _ _ _, name, rfl, hkey⟩
  · exact .inl (get?_flags_mark_ne r hne)

/-- Changing the counter of favourable verdicts of a step. -/
theorem tally (hflags : r'.flags = r.flags)
    (hcounters : ∀ key, Step.tallyKey name ≠ key → r'.counters.get? key = r.counters.get? key)
    (hgained : gained.suspensions = []) : Stretch (· = name) gained r r' := by
  refine ⟨fun _ => .inl (by rw [hflags]), ?_, hgained⟩
  intro key
  by_cases hkey : Step.tallyKey name = key
  · exact .inr ⟨name, rfl, .inl hkey.symm⟩
  · exact .inl (hcounters key hkey)

/-- No stretch changes how often the effect of a request did not show. -/
theorem polls (h : Stretch touched gained r r') (name : String) :
    r'.counters.get? (Step.pollsKey name) = r.counters.get? (Step.pollsKey name) := by
  rcases h.counters (Step.pollsKey name) with heq | ⟨other, _, htally | ⟨hthrottles, _⟩⟩
  · exact heq
  · exact absurd htally.symm (Step.tallyKey_ne_pollsKey other name)
  · exact absurd hthrottles (Step.pollsKey_ne_throttlesKey name other)

/-- How often a request was put off is forgotten only when the request is accepted. -/
theorem throttles (h : Stretch touched gained r r') (name : String) :
    r'.counters.get? (Step.throttlesKey name) = r.counters.get? (Step.throttlesKey name) ∨
      touched name ∧ r'.counters.get? (Step.throttlesKey name) = none ∧
        ∃ entry ∈ gained, entry.accepts name = true := by
  refine (h.counters (Step.throttlesKey name)).imp_right ?_
  rintro ⟨other, hother, htally | ⟨hthrottles, hnone, haccepted⟩⟩
  · exact absurd htally.symm (Step.tallyKey_ne_throttlesKey other name)
  · obtain rfl := Step.throttlesKey_inj.mp hthrottles
    exact ⟨hother, hnone, haccepted⟩

/-- What a pass starts from has the marks and counters of the record that it was given. -/
theorem of_seed {target : Target M} (h : Stretch touched gained (seed target r) r') :
    Stretch touched gained r r' := by
  refine ⟨?_, ?_, h.suspensions⟩
  · simpa only [flags_seed] using h.marks
  · simpa only [counters_seed] using h.counters

/-- A mark that is none of the steps that are touched stays. -/
theorem flags_eq {key : String} (h : Stretch touched gained r r')
    (hkey : ∀ name, touched name → key ≠ name ∧ key ≠ doneKey name) :
    r'.flags.get? key = r.flags.get? key := by
  refine (h.marks key).resolve_right ?_
  rintro ⟨_, name, hname, rfl | rfl⟩
  · exact (hkey _ hname).1 rfl
  · exact (hkey _ hname).2 rfl

end Stretch

section Visits

variable {faults : FaultTable} {config : ChainConfig} {remote : Remote} {target : Target M}
  {step : Step M} {r r' : ProgressRecord M} {past gained : Journal}

/-- An accepted request writes no more than a stretch does. -/
theorem Accepted.stretch (hmarks : step.KeepsMarks) (hcounters : step.KeepsCounters)
    (h : Accepted faults config remote target step r past r' gained) :
    Stretch (· = step.name) gained r r' := by
  cases h with
  | earlier => exact .refl _ r
  | now _ hissued =>
    cases hissued with
    | @accepted request response =>
      have hflags : (acceptedRecord step response r).flags = (r.mark step.name).flags :=
        hmarks.capture _ _
      have hcounts : (acceptedRecord step response r).counters =
          (r.resetCounter (Step.throttlesKey step.name)).counters := hcounters.capture _ _
      have hsuspensions :
          (settling step r ++ [Chain.sent step request (.ok response)]).suspensions = [] :=
        suspensions_settling_append _
      have hmark : Stretch (· = step.name) _ r (r.mark step.name) :=
        .mark (.inl rfl) rfl rfl hsuspensions
      refine ⟨?_, ?_, hsuspensions⟩
      · rw [hflags]
        exact hmark.marks
      · intro key
        rw [hcounts]
        by_cases hkey : Step.throttlesKey step.name = key
        · rw [← hkey]
          exact .inr ⟨step.name, rfl, .inr ⟨rfl, Dict.get?_erase_self _ _,
            Chain.sent step request (.ok response), by simp, by simp [Chain.sent, Entry.accepts]⟩⟩
        · exact .inl (get?_counters_resetCounter_ne r hkey)

/-- An effect that shows writes no more than a stretch does. -/
theorem Stabilized.stretch {observed : Option Value}
    (h : Stabilized faults config remote target step r past (.ok (.ok (observed, r'))) gained) :
    Stretch (· = step.name) gained r r' := by
  cases h with
  | undeclared => exact .refl _ r
  | stable => exact .tally rfl (fun _ hkey => get?_counters_increment_ne r hkey) rfl

/-- A look that is not yet good enough writes no more than a stretch does. -/
theorem stretch_pendingRecord (favourable : Bool) (r : ProgressRecord M) (s : Stabilization)
    (answer : Answer) :
    Stretch (· = step.name) [looked step s answer] r (pendingRecord step favourable r) := by
  cases favourable with
  | true => exact .tally rfl (fun _ hkey => get?_counters_increment_ne r hkey) rfl
  | false => exact .tally rfl (fun _ hkey => get?_counters_resetCounter_ne r hkey) rfl

/-- Completing a step writes no more than a stretch does. -/
theorem Completed.stretch {observed : Option Value} (hmarks : step.KeepsMarks)
    (hcounters : step.KeepsCounters) (h : Completed step observed r (.ok r') gained) :
    Stretch (· = step.name) gained r r' := by
  cases h with
  | @advanced _ r₁ hcompletion =>
    have hflags := hmarks.flags_completed hcompletion
    have hcounts := hcounters.counters_completed hcompletion
    exact .mark (.inr rfl) (congrArg (·.insert (doneKey step.name) true) hflags) hcounts rfl

/-- A visit that completes a step writes no more than a stretch does. -/
theorem Visited.stretch (hmarks : step.KeepsMarks) (hcounters : step.KeepsCounters)
    (h : Visited faults config remote target step r past (.ok (.ok r')) gained) :
    Stretch (· = step.name) gained r r' := by
  cases h with
  | tolerated _ hissued =>
    cases hissued with
    | tolerated => exact .mark (.inr rfl) rfl rfl (suspensions_settling_append _)
  | shown haccepted hstabilized hcompleted =>
    exact ((haccepted.stretch hmarks hcounters).append hstabilized.stretch).append
      (hcompleted.stretch hmarks hcounters)

/-- What a suspension leaves in the record. -/
def leave (cause : SuspensionCause) (name : String) (r : ProgressRecord M) : ProgressRecord M :=
  match cause with
  | .retry => r.increment (Step.throttlesKey name)
  | .pending => r.increment (Step.pollsKey name)
  | .coolDown => r.markCooled name

end Visits

section Suspensions

variable (faults : FaultTable) (config : ChainConfig) (remote : Remote) (target : Target M)

/-- How a pass was suspended at a step that it took up with a record, on top of a journal: what
that did to the record that the pass left, and where the delay comes from. -/
inductive Halted (step : Step M) (taken : ProgressRecord M) (past : Journal) (delay : UInt64)
    (r r' : ProgressRecord M) : SuspensionCause → Prop
  /-- The request was put off once more, by the schedule of the chain. -/
  | retry
      (hcount : r'.counters.get? (Step.throttlesKey step.name) =
        some (nextCount (r.counter (Step.throttlesKey step.name))))
      (hdelay : config.throttling.nextDelay (r.counter (Step.throttlesKey step.name)).toNat =
        some delay) : Halted step taken past delay r r' .retry
  /-- The effect did not show once more, by the schedule that the step declares. -/
  | pending {accepted : ProgressRecord M} {first : Journal} {s : Stabilization}
      (haccepted : Accepted faults config remote target step taken past accepted first)
      (hdeclared : step.stabilization target accepted = .ok (some s))
      (hcount : r'.counters.get? (Step.pollsKey step.name) =
        some (nextCount (r.counter (Step.pollsKey step.name))))
      (hdelay : (s.policy.getD config.stabilization).nextDelay
        (r.counter (Step.pollsKey step.name)).toNat = some delay) :
      Halted step taken past delay r r' .pending
  /-- The effect showed, and the step asked for a cool-down that was not served yet. -/
  | coolDown {accepted shown left : ProgressRecord M} {first second : Journal}
      {observed : Option Value}
      (haccepted : Accepted faults config remote target step taken past accepted first)
      (hstabilized : Stabilized faults config remote target step accepted (past ++ first)
        (.ok (.ok (observed, shown))) second)
      (hcompletion : step.onComplete observed shown = (.coolDown delay, left))
      (hnew : r.isCooled step.name = false) (hcooled : r'.isCooled step.name = true) :
      Halted step taken past delay r r' .coolDown

/-- A walk over steps gets to a step and takes it up: the record by then and the entries that the
walk has added. -/
inductive Reaches : List (Step M) → ProgressRecord M → Journal → Step M → ProgressRecord M →
    Journal → Prop
  /-- It is the first step. -/
  | first {step : Step M} {steps : List (Step M)} {r : ProgressRecord M} {past : Journal}
      (htakes : takesUp target step r = true) : Reaches (step :: steps) r past step r []
  /-- The first step is passed over. -/
  | passedOver {step other : Step M} {steps : List (Step M)} {r r' : ProgressRecord M}
      {past gained : Journal} (hover : takesUp target step r = false)
      (hrest : Reaches steps r past other r' gained) :
      Reaches (step :: steps) r past other r' gained
  /-- A visit completes the first step. -/
  | completed {step other : Step M} {steps : List (Step M)} {r r₁ r' : ProgressRecord M}
      {past first rest : Journal} (htakes : takesUp target step r = true)
      (hvisit : (visit faults config target step r).run remote past =
        (.ok (.ok r₁), past ++ first))
      (hrest : Reaches steps r₁ (past ++ first) other r' rest) :
      Reaches (step :: steps) r past other r' (first ++ rest)

/-- A walk over steps takes a step up. -/
def TakenUp (steps : List (Step M)) (r : ProgressRecord M) (past : Journal) (step : Step M) :
    Prop :=
  ∃ r' gained, Reaches faults config remote target steps r past step r' gained

/-- A walk over steps takes a step of this name up. -/
def IsTakenUp (steps : List (Step M)) (r : ProgressRecord M) (past : Journal) (name : String) :
    Prop :=
  ∃ step, TakenUp faults config remote target steps r past step ∧ step.name = name

variable {faults config remote target} {step : Step M} {steps : List (Step M)}
  {r r' : ProgressRecord M} {past gained : Journal} {delay : UInt64}

/-- A visit that suspends the operation writes what a stretch does, and last what the suspension
leaves. -/
theorem Visited.exists_halted (hmarks : step.KeepsMarks) (hcounters : step.KeepsCounters)
    (h : Visited faults config remote target step r past (.ok (.error (.inProgress delay r')))
      gained) :
    ∃ cause r₁ before, gained = before ++ [.suspended step.name cause delay] ∧
      Stretch (· = step.name) before r r₁ ∧ r' = leave cause step.name r₁ ∧
      Halted faults config remote target step r past delay r₁ r' cause ∧
      (cause = .retry → r₁ = r) := by
  cases h with
  | halted _ hissued =>
    cases hissued with
    | @retried request fault _ _ _ _ _ _ hsuspended =>
      obtain ⟨hdelay, rfl, rfl⟩ := hsuspended.eq_postponed rfl
      exact ⟨.retry, r, settling step r ++ [sent step request (.error fault)], by simp,
        .of_eq rfl rfl (suspensions_settling_append _), rfl,
        .retry (Dict.get?_insert_self _ _ _) hdelay, fun _ => rfl⟩
  | @unstable accepted _ first _ haccepted hstabilized =>
    cases hstabilized with
    | @pending s favourable _ _ _ hdeclared _ _ hsuspended =>
      obtain ⟨hdelay, rfl, rfl⟩ := hsuspended.eq_postponed rfl
      have hlook : Stretch (· = step.name)
          [looked step s (remote (past ++ first).exchanges s.probe.call)] accepted
          (pendingRecord step favourable accepted) := stretch_pendingRecord favourable accepted s _
      exact ⟨.pending, _, _, by simp, (haccepted.stretch hmarks hcounters).append hlook, rfl,
        .pending haccepted hdeclared (Dict.get?_insert_self _ _ _) hdelay, nofun⟩
  | @shown accepted shown observed _ first second _ haccepted hstabilized hcompleted =>
    cases hcompleted with
    | @cooling _ left hcompletion hnew =>
      have hlast : Stretch (· = step.name) [] shown left :=
        .of_eq (hmarks.flags_completed hcompletion) (hcounters.counters_completed hcompletion) rfl
      have hshown := (haccepted.stretch hmarks hcounters).append hstabilized.stretch
      have hstretch := hshown.append hlast
      rw [List.append_nil] at hstretch
      exact ⟨.coolDown, left, first ++ second, rfl, hstretch, rfl,
        .coolDown haccepted hstabilized hcompletion hnew (flag_mark_self left _), nofun⟩

/-- A walk that suspends the operation gets to the step that the operation is suspended at. -/
theorem Walked.exists_reaches
    (h : Walked faults config remote target steps r past (.ok (.inProgress delay r')) gained) :
    ∃ step taken before last, gained = before ++ last ∧
      Reaches faults config remote target steps r past step taken before ∧
      Visited faults config remote target step taken (past ++ before)
        (.ok (.error (.inProgress delay r'))) last := by
  generalize hresult : (.ok (.inProgress delay r') : Except Defect (Outcome M)) = result at h
  induction h with
  | finished =>
    rw [report] at hresult
    cases hterminal : config.terminal <;> simp [hterminal] at hresult
  | passedOver hover _ ih =>
    obtain ⟨step, taken, before, last, rfl, hreaches, hvisited⟩ := ih hresult
    exact ⟨step, taken, before, last, rfl, .passedOver hover hreaches, hvisited⟩
  | @completed _ _ _ _ _ first _ _ htakes hvisit _ ih =>
    obtain ⟨step, taken, before, last, rfl, hreaches, hvisited⟩ := ih hresult
    refine ⟨step, taken, first ++ before, last, (List.append_assoc ..).symm,
      .completed htakes hvisit hreaches, ?_⟩
    rwa [← List.append_assoc]
  | stopped htakes hvisit =>
    obtain rfl := Except.ok.inj hresult
    refine ⟨_, _, [], _, rfl, .first htakes, ?_⟩
    rw [List.append_nil]
    exact visited_of_run_append hvisit
  | broke => cases hresult

/-- A step that a walk gets to is one of its steps. -/
theorem Reaches.mem (h : Reaches faults config remote target steps r past step r' gained) :
    step ∈ steps := by
  induction h with
  | first => exact List.mem_cons_self
  | passedOver _ _ ih => exact List.mem_cons_of_mem _ ih
  | completed _ _ _ ih => exact List.mem_cons_of_mem _ ih

/-- Until a walk takes a step up, it writes what a stretch does, for the steps that it took up
before. -/
theorem Reaches.stretch (hnodup : (steps.map (·.name)).Nodup)
    (hmarks : ∀ step ∈ steps, step.KeepsMarks) (hcounters : ∀ step ∈ steps, step.KeepsCounters)
    (h : Reaches faults config remote target steps r past step r' gained) :
    Stretch (fun name => name ≠ step.name ∧
      IsTakenUp faults config remote target steps r past name) gained r r' := by
  induction h with
  | first => exact .refl _ _
  | passedOver hover hrest ih =>
    rw [List.map_cons, List.nodup_cons] at hnodup
    rw [List.forall_mem_cons] at hmarks hcounters
    refine (ih hnodup.2 hmarks.2 hcounters.2).mono ?_
    rintro name ⟨hne, other, ⟨taken, before, hreaches⟩, hname⟩
    exact ⟨hne, other, ⟨taken, before, .passedOver hover hreaches⟩, hname⟩
  | @completed first step _ _ _ _ _ _ _ htakes hvisit hrest ih =>
    rw [List.map_cons, List.nodup_cons] at hnodup
    rw [List.forall_mem_cons] at hmarks hcounters
    have hfirst := (visited_of_run_append hvisit).stretch hmarks.1 hcounters.1
    refine (hfirst.mono ?_).append ((ih hnodup.2 hmarks.2 hcounters.2).mono ?_)
    · rintro name rfl
      refine ⟨?_, first, ⟨_, _, .first htakes⟩, rfl⟩
      intro heq
      exact hnodup.1 (heq ▸ List.mem_map_of_mem hrest.mem)
    · rintro name ⟨hne, other, ⟨taken, before, hreaches⟩, hname⟩
      exact ⟨hne, other, ⟨taken, _, .completed htakes hvisit hreaches⟩, hname⟩

/-- How a pass was suspended is told as well by an earlier record that has what the suspension looks
at. -/
theorem Halted.congr {taken r₁ : ProgressRecord M} {cause : SuspensionCause}
    (h : Halted faults config remote target step taken past delay r₁ r' cause)
    (hpolls : r₁.counters.get? (Step.pollsKey step.name) =
      r.counters.get? (Step.pollsKey step.name))
    (hthrottles : cause = .retry → r₁.counters.get? (Step.throttlesKey step.name) =
      r.counters.get? (Step.throttlesKey step.name))
    (hcooled : r₁.flags.get? (cooledKey step.name) = r.flags.get? (cooledKey step.name)) :
    Halted faults config remote target step taken past delay r r' cause := by
  cases h with
  | retry hcount hdelay =>
    rw [counter, hthrottles rfl] at hcount hdelay
    exact .retry hcount hdelay
  | pending haccepted hdeclared hcount hdelay =>
    rw [counter, hpolls] at hcount hdelay
    exact .pending haccepted hdeclared hcount hdelay
  | coolDown haccepted hstabilized hcompletion hnew hset =>
    rw [isCooled, flag, hcooled] at hnew
    exact .coolDown haccepted hstabilized hcompletion hnew hset

/-- A suspension sets at most the mark of its cool-down. -/
theorem get?_flags_leave (cause : SuspensionCause) (name : String) (r : ProgressRecord M)
    (key : String) : (leave cause name r).flags.get? key = r.flags.get? key ∨
      (leave cause name r).flags.get? key = some true ∧ cause = .coolDown ∧
        key = cooledKey name := by
  cases cause with
  | retry => exact .inl rfl
  | pending => exact .inl rfl
  | coolDown =>
    by_cases hkey : cooledKey name = key
    · rw [← hkey]
      exact .inr ⟨Dict.get?_insert_self _ _ _, rfl, rfl⟩
    · exact .inl (get?_flags_mark_ne r hkey)

/-- A suspension raises at most one counter, of looks or of requests. -/
theorem get?_counters_leave (cause : SuspensionCause) (name : String) (r : ProgressRecord M)
    (key : String) : (leave cause name r).counters.get? key = r.counters.get? key ∨
      (leave cause name r).counters.get? key = some (nextCount (r.counter key)) ∧
        (cause = .pending ∧ key = Step.pollsKey name ∨
          cause = .retry ∧ key = Step.throttlesKey name) := by
  cases cause with
  | retry =>
    by_cases hkey : Step.throttlesKey name = key
    · rw [← hkey]
      exact .inr ⟨Dict.get?_insert_self _ _ _, .inr ⟨rfl, rfl⟩⟩
    · exact .inl (get?_counters_increment_ne r hkey)
  | pending =>
    by_cases hkey : Step.pollsKey name = key
    · rw [← hkey]
      exact .inr ⟨Dict.get?_insert_self _ _ _, .inl ⟨rfl, rfl⟩⟩
    · exact .inl (get?_counters_increment_ne r hkey)
  | coolDown => exact .inl rfl

end Suspensions

section Passes

variable (c : Chain M) (faults : FaultTable) (remote : Remote) (target : Target M)
  (r : ProgressRecord M) (past gained : Journal) (delay : UInt64) (r' : ProgressRecord M)

/-- A pass was suspended at one step for one cause, and nowhere else. A counter that has its
greatest value keeps it when it is raised, so it takes the journal to say where. -/
structure SuspendedAt (step : Step M) (cause : SuspensionCause) : Prop where
  /-- The journal has no other suspension. -/
  sole : gained.suspensions = [(step.name, cause, delay)]
  /-- The record shows the one that there was. -/
  halted : ∃ taken before,
    Reaches faults c.config remote target c.steps (seed target r) past step taken before ∧
      Halted faults c.config remote target step taken (past ++ before) delay r r' cause
  /-- No other effect is noted to have not shown. -/
  polls : ∀ name, r'.counters.get? (Step.pollsKey name) = r.counters.get? (Step.pollsKey name) ∨
    cause = .pending ∧ name = step.name
  /-- No other request is noted to have been put off. -/
  throttles : ∀ name,
    r'.counters.get? (Step.throttlesKey name) = r.counters.get? (Step.throttlesKey name) ∨
      r'.counters.get? (Step.throttlesKey name) = none ∨ cause = .retry ∧ name = step.name
  /-- No other cool-down is noted to have been served. -/
  coolDowns : ∀ other ∈ c.steps,
    r'.flags.get? (cooledKey other.name) = r.flags.get? (cooledKey other.name) ∨
      cause = .coolDown ∧ other = step

/-- A pass that suspends the operation wrote nothing but the marks and counters of its own steps. -/
structure WritesOwn : Prop where
  /-- A mark that changes is set, and is one of a step that the pass took up. -/
  marks : ∀ key, r'.flags.get? key = r.flags.get? key ∨
    r'.flags.get? key = some true ∧
      ∃ step, TakenUp faults c.config remote target c.steps (seed target r) past step ∧
        (key = step.name ∨ key = cooledKey step.name ∨ key = doneKey step.name)
  /-- A counter that changes is one of a step that the pass took up. -/
  counters : ∀ key, r'.counters.get? key = r.counters.get? key ∨
    ∃ step, TakenUp faults c.config remote target c.steps (seed target r) past step ∧
      (key = Step.tallyKey step.name ∨ key = Step.pollsKey step.name ∨
        key = Step.throttlesKey step.name)
  /-- How often a request was put off is forgotten only when the request is accepted. -/
  dropped : ∀ name, r'.counters.get? (Step.throttlesKey name) = none →
    r.counters.get? (Step.throttlesKey name) = none ∨
      ∃ entry ∈ gained, entry.accepts name = true
  /-- There was one suspension, at one step. -/
  suspended : ∃ step ∈ c.steps, ∃ cause,
    c.SuspendedAt faults remote target r past gained delay r' step cause

variable {c faults remote target r past gained delay r'} {step : Step M}
  {cause : SuspensionCause}

/-- No stretch sets the mark that a cool-down is served. -/
theorem Stretch.coolDowns {r₁ : ProgressRecord M} {written : Journal}
    (h : Stretch (IsTakenUp faults c.config remote target c.steps (seed target r) past) written
      r r₁) (hnames : c.NamesApart) (hmem : step ∈ c.steps) :
    r₁.flags.get? (cooledKey step.name) = r.flags.get? (cooledKey step.name) := by
  refine h.flags_eq ?_
  rintro name ⟨other, ⟨_, _, hreaches⟩, rfl⟩
  exact ⟨(hnames.cooled other hreaches.mem step hmem).symm, (doneKey_ne_cooledKey _ _).symm⟩

/-- A pass that suspends the operation writes what a stretch does, for steps that it takes up, and
last what the suspension leaves; and the record that the pass began with tells which one it is. -/
theorem exists_halted_of_walked (hnames : c.NamesApart)
    (hmarks : ∀ step ∈ c.steps, step.KeepsMarks)
    (hcounters : ∀ step ∈ c.steps, step.KeepsCounters)
    (h : Walked faults c.config remote target c.steps (seed target r) past
      (.ok (.inProgress delay r')) gained) :
    ∃ step taken before cause written r₁,
      Reaches faults c.config remote target c.steps (seed target r) past step taken before ∧
      gained = written ++ [.suspended step.name cause delay] ∧
      Stretch (IsTakenUp faults c.config remote target c.steps (seed target r) past) written
        r r₁ ∧
      r' = leave cause step.name r₁ ∧
      Halted faults c.config remote target step taken (past ++ before) delay r r' cause := by
  obtain ⟨step, taken, before, last, rfl, hreaches, hvisited⟩ := h.exists_reaches
  have hmem := hreaches.mem
  obtain ⟨cause, r₁, within, rfl, hvisit, hlast, hhalted, hretry⟩ :=
    hvisited.exists_halted (hmarks step hmem) (hcounters step hmem)
  have hearlier := (hreaches.stretch hnames.distinct hmarks hcounters).of_seed
  have hstretch := (hearlier.mono fun _ hname => hname.2).append
    (hvisit.mono fun _ hname => ⟨step, ⟨taken, before, hreaches⟩, hname.symm⟩)
  refine ⟨step, taken, before, cause, before ++ within, r₁, hreaches,
    (List.append_assoc ..).symm, hstretch, hlast,
    hhalted.congr (hstretch.polls _) ?_ (hstretch.coolDowns hnames hmem)⟩
  intro hcause
  -- A request that is put off was not accepted, so its counter is the one that the pass took up.
  rw [hretry hcause]
  refine (hearlier.throttles step.name).resolve_right ?_
  rintro ⟨⟨hne, _⟩, _⟩
  exact hne rfl

/-- What a stretch writes and a suspension leaves is seen at one step only. -/
theorem Halted.suspendedAt {taken r₁ : ProgressRecord M} {before written : Journal}
    (h : Halted faults c.config remote target step taken (past ++ before) delay r
      (leave cause step.name r₁) cause) (hnames : c.NamesApart)
    (hreaches : Reaches faults c.config remote target c.steps (seed target r) past step taken
      before)
    (hstretch : Stretch (IsTakenUp faults c.config remote target c.steps (seed target r) past)
      written r r₁) :
    c.SuspendedAt faults remote target r past (written ++ [.suspended step.name cause delay])
      delay (leave cause step.name r₁) step cause := by
  have hcounters := get?_counters_leave cause step.name r₁
  constructor
  case sole =>
    rw [Journal.suspensions_append, hstretch.suspensions]
    rfl
  case halted => exact ⟨taken, before, hreaches, h⟩
  case polls =>
    intro name
    rcases hcounters (Step.pollsKey name) with heq | ⟨_, ⟨hcause, hkey⟩ | ⟨_, hkey⟩⟩
    · exact .inl (heq.trans (hstretch.polls name))
    · exact .inr ⟨hcause, Step.pollsKey_inj.mp hkey⟩
    · exact absurd hkey (Step.pollsKey_ne_throttlesKey _ _)
  case throttles =>
    intro name
    rcases hcounters (Step.throttlesKey name) with heq | ⟨_, ⟨_, hkey⟩ | ⟨hcause, hkey⟩⟩
    · rw [heq]
      exact (hstretch.throttles name).imp_right fun hdropped => .inl hdropped.2.1
    · exact absurd hkey.symm (Step.pollsKey_ne_throttlesKey _ _)
    · exact .inr (.inr ⟨hcause, Step.throttlesKey_inj.mp hkey⟩)
  case coolDowns =>
    intro other hother
    rcases get?_flags_leave cause step.name r₁ (cooledKey other.name) with heq | ⟨_, hcause, hkey⟩
    · exact .inl (heq.trans (hstretch.coolDowns hnames hother))
    · exact .inr ⟨hcause, hnames.eq_of_name_eq hother hreaches.mem (cooledKey_inj.mp hkey)⟩

end Passes

end Chain

open Chain

/-- A pass that suspends the operation changes only its own bookkeeping: marks that it sets and
counters of steps that it took up. It was suspended for one cause at one step, the counter or mark
of which says so and gives the delay. -/
theorem suspended_pass_writes_own {c : Chain M} {faults : FaultTable} {remote : Remote}
    {target : Target M} {r r' : ProgressRecord M} {past journal : Journal} {delay : UInt64}
    (hnames : c.NamesApart) (hkeeps : ∀ step ∈ c.steps, step.KeepsMarks ∧ step.KeepsCounters)
    (hpass : (c.pass faults target r).run remote past = (.ok (.inProgress delay r'), journal)) :
    ∃ gained, journal = past ++ gained ∧
      c.WritesOwn faults remote target r past gained delay r' := by
  obtain ⟨gained, hjournal, hwalked⟩ := exists_walked_of_pass faults remote target hpass
  refine ⟨gained, hjournal, ?_⟩
  obtain ⟨step, taken, before, cause, written, r₁, hreaches, rfl, hstretch, rfl, hhalted⟩ :=
    exists_halted_of_walked hnames (fun step hstep => (hkeeps step hstep).1)
      (fun step hstep => (hkeeps step hstep).2) hwalked
  have htaken : TakenUp faults c.config remote target c.steps (seed target r) past step :=
    ⟨taken, before, hreaches⟩
  constructor
  case marks =>
    intro key
    rcases get?_flags_leave cause step.name r₁ key with heq | ⟨hset, _, hkey⟩
    · rw [heq]
      refine (hstretch.marks key).imp_right ?_
      rintro ⟨hset, _, ⟨other, hother, rfl⟩, hkey⟩
      exact ⟨hset, other, hother, hkey.imp_right .inr⟩
    · exact .inr ⟨hset, step, htaken, .inr (.inl hkey)⟩
  case counters =>
    intro key
    rcases get?_counters_leave cause step.name r₁ key with heq | ⟨_, ⟨_, hkey⟩ | ⟨_, hkey⟩⟩
    · rw [heq]
      refine (hstretch.counters key).imp_right ?_
      rintro ⟨_, ⟨other, hother, rfl⟩, hkey⟩
      exact ⟨other, hother, hkey.imp_right fun hthrottles => .inr hthrottles.1⟩
    · exact .inr ⟨step, htaken, .inr (.inl hkey)⟩
    · exact .inr ⟨step, htaken, .inr (.inr hkey)⟩
  case dropped =>
    intro name hnone
    rcases get?_counters_leave cause step.name r₁ (Step.throttlesKey name) with heq | ⟨hraised, _⟩
    · rw [heq] at hnone
      rcases hstretch.throttles name with hold | ⟨_, _, entry, hentry, haccepts⟩
      · exact .inl (hold.symm.trans hnone)
      · exact .inr ⟨entry, List.mem_append_left _ hentry, haccepts⟩
    · cases hraised.symm.trans hnone
  case suspended =>
    exact ⟨step, hreaches.mem, cause, hhalted.suspendedAt hnames hreaches hstretch⟩

/-- A chain of which the first step does not apply and the last one has to wait for its effect. -/
def resizing : Chain Unit where
  operation := "update"
  config := { stabilization := .constant 30 60, throttling := .constant 5 60 }
  steps :=
    [ { name := "tag"
        shouldRun := fun _ _ => false
        request := fun _ _ => .ok ⟨"Tag", .null⟩ },
      { name := "modify"
        request := fun _ _ => .ok ⟨"Modify", .null⟩ },
      { name := "resize"
        request := fun _ _ => .ok ⟨"Resize", .null⟩
        stabilization := fun _ _ => .ok (some { probe := .describe "it" })
        isStable := fun _ _ => false } ]

/-- A record in which one request was put off twice, with marks and counters of no step as well. -/
def putOffTwice : ProgressRecord Unit where
  flags := .ofList [("retired", false), ("retired#done", true)]
  counters := .ofList [("modify-throttles", 2), ("retired-polls", 7)]

/-- The request that was put off is accepted, the last step waits, and the rest stays. -/
theorem resizing_writes_own :
    resizing.NamesApart ∧ (∀ step ∈ resizing.steps, step.KeepsMarks ∧ step.KeepsCounters) ∧
      ∃ r' journal, (resizing.pass FaultTable.common ⟨(), none⟩ putOffTwice).run
          (fun _ _ => .ok .null) [] = (.ok (.inProgress 30 r'), journal) ∧
        resizing.WritesOwn FaultTable.common (fun _ _ => .ok .null) ⟨(), none⟩ putOffTwice []
          journal 30 r' ∧
        r'.flags = .ofList [("modify", true), ("modify#done", true), ("resize", true),
          ("retired", false), ("retired#done", true)] ∧
        r'.counters = .ofList [("resize-polls", 1), ("retired-polls", 7)] := by
  have hnames : resizing.NamesApart :=
    ⟨by decide +kernel, by decide +kernel, by decide +kernel⟩
  have hkeeps : ∀ step ∈ resizing.steps, step.KeepsMarks ∧ step.KeepsCounters := by
    intro step hstep
    simp only [resizing, List.mem_cons, List.not_mem_nil, or_false] at hstep
    rcases hstep with rfl | rfl | rfl
    all_goals exact ⟨⟨fun _ _ => rfl, fun _ _ => rfl⟩, ⟨fun _ _ => rfl, fun _ _ => rfl⟩⟩
  obtain ⟨r', journal, hpass, hrecord⟩ : ∃ r' journal,
      (resizing.pass FaultTable.common ⟨(), none⟩ putOffTwice).run (fun _ _ => .ok .null) [] =
        (.ok (.inProgress 30 r'), journal) ∧
      r'.flags = .ofList [("modify", true), ("modify#done", true), ("resize", true),
        ("retired", false), ("retired#done", true)] ∧
      r'.counters = .ofList [("resize-polls", 1), ("retired-polls", 7)] :=
    ⟨_, _, rfl, by decide +kernel, by decide +kernel⟩
  obtain ⟨gained, hjournal, hwrites⟩ := suspended_pass_writes_own hnames hkeeps hpass
  rw [List.nil_append] at hjournal
  exact ⟨hnames, hkeeps, r', journal, hpass, hjournal ▸ hwrites, hrecord⟩

end Lifecycle
