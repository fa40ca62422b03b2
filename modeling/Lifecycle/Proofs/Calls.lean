import Lifecycle.Proofs.Run

/-!
# Calls of a visit and the steps it completes

Every call in a journal is made for a step (`Run.throughout_madeBy`). All calls of a
visit are made for the step that is visited (`Visited.calls`), and the visit says
that this step is complete exactly when the walk goes on to the next one
(`Visited.finished`).
-/

namespace Lifecycle

open Json

variable {M : Type}

namespace Entry

/-- Whether an entry is a call made for a step: its request or a look for the effect. -/
def callsFor (name : String) : Entry → Bool
  | .exchanged (.mutation step) _ => step = name
  | .exchanged (.observation tally) _ => tally = Step.tallyKey name
  | _ => false

/-- Whether an entry is a call at all. -/
def isCall : Entry → Bool
  | .exchanged .. => true
  | _ => false

/-- Only a call is made for a step. -/
theorem isCall_of_callsFor {name : String} {entry : Entry} (h : entry.callsFor name = true) :
    entry.isCall = true := by
  cases entry with
  | exchanged => rfl
  | _ => simp [callsFor] at h

/-- A call is made for one step. -/
theorem name_eq_of_callsFor {a b : String} {entry : Entry} (ha : entry.callsFor a = true)
    (hb : entry.callsFor b = true) : a = b := by
  rcases entry with ⟨step | tally | _, _⟩ | _ | _ | _ | _
  · exact (of_decide_eq_true ha).symm.trans (of_decide_eq_true hb)
  · have htally := (of_decide_eq_true ha).symm.trans (of_decide_eq_true hb)
    exact Step.tallyKey_inj.mp htally
  all_goals simp [callsFor] at ha

/-- A pause is no call. -/
theorem isCall_of_isPause {entry : Entry} (h : entry.isPause = true) : entry.isCall = false := by
  cases entry with
  | exchanged => cases h
  | _ => rfl

/-- The step that an entry says to be complete. -/
def finished? : Entry → Option String
  | .completed step => some step
  | .tolerated step => some step
  | _ => none

/-- A pause completes no step. -/
theorem finished?_of_isPause {entry : Entry} (h : entry.isPause = true) :
    entry.finished? = none := by
  cases entry with
  | completed => cases h
  | tolerated => cases h
  | _ => rfl

end Entry

/-- The names of the steps that a journal says to be complete, in the order of completion. -/
def Journal.finished (j : Journal) : List String := j.filterMap Entry.finished?

namespace Journal

@[simp] theorem finished_nil : finished [] = [] := rfl

@[simp] theorem finished_append (past gained : Journal) :
    finished (past ++ gained) = finished past ++ finished gained := List.filterMap_append

/-- Pauses complete no step. -/
theorem finished_of_isPause {j : Journal} (h : ∀ entry ∈ j, entry.isPause = true) :
    finished j = [] := by
  rw [finished, List.filterMap_eq_nil_iff]
  intro entry hentry
  exact Entry.finished?_of_isPause (h entry hentry)

/-- A journal leaves a step out: it has no call for the step and does not complete it. -/
def Omits (name : String) (j : Journal) : Prop :=
  (∀ entry ∈ j, entry.callsFor name = false) ∧ name ∉ j.finished

theorem omits_nil (name : String) : Omits name [] := ⟨List.forall_mem_nil _, List.not_mem_nil⟩

/-- What leaves a step out in both parts leaves it out. -/
theorem Omits.append {name : String} {past gained : Journal} (h : Omits name past)
    (h' : Omits name gained) : Omits name (past ++ gained) := by
  refine ⟨List.forall_mem_append.mpr ⟨h.1, h'.1⟩, ?_⟩
  rw [finished_append, List.mem_append, not_or]
  exact ⟨h.2, h'.2⟩

end Journal

namespace Chain

variable {faults : FaultTable} {config : ChainConfig} {remote : Remote} {target : Target M}
  {step : Step M} {r r' : ProgressRecord M} {past gained : Journal}

@[simp] theorem finished_settling : Journal.finished (settling step r) = [] :=
  Journal.finished_of_isPause fun _ => isPause_of_mem_settling

/-- The calls that a visit to a step makes: its request, unless that was accepted before, and looks
for the effect. -/
inductive MadeBy (target : Target M) (step : Step M) (r : ProgressRecord M) : Entry → Prop
  /-- The request of the step. -/
  | request {request : RemoteRequest} {answer : Answer} (hnew : r.isInvoked step.name = false)
      (hrequest : step.request target r = .ok request) :
      MadeBy target step r (sent step request answer)
  /-- A look for its effect. -/
  | look {r' : ProgressRecord M} {s : Stabilization} {answer : Answer}
      (hdeclared : step.stabilization target r' = .ok (some s)) :
      MadeBy target step r (looked step s answer)

@[simp] theorem callsFor_sent (step : Step M) (request : RemoteRequest) (answer : Answer) :
    (sent step request answer).callsFor step.name = true := decide_eq_true rfl

@[simp] theorem callsFor_looked (step : Step M) (s : Stabilization) (answer : Answer) :
    (looked step s answer).callsFor step.name = true := decide_eq_true rfl

/-- Each call that is made by a visit is made for the step. -/
theorem MadeBy.callsFor {entry : Entry} (h : MadeBy target step r entry) :
    entry.callsFor step.name = true := by
  cases h with
  | request => exact callsFor_sent step _ _
  | look => exact callsFor_looked step _ _

/-- A call that is made by a visit is the request of the step or a look for its effect. -/
theorem MadeBy.request_or_look {purpose : Purpose} {exchange : Exchange}
    (h : MadeBy target step r (.exchanged purpose exchange)) :
    (∃ request, purpose = .mutation step.name ∧ exchange.call = .invoke request ∧
      step.request target r = .ok request) ∨
    ∃ r' s, purpose = .observation (Step.tallyKey step.name) ∧ exchange.call = s.probe.call ∧
      step.stabilization target r' = .ok (some s) := by
  generalize hentry : Entry.exchanged purpose exchange = entry at h
  cases h with
  | request _ hrequest =>
    obtain ⟨rfl, rfl⟩ := Entry.exchanged.inj hentry
    exact .inl ⟨_, rfl, rfl, hrequest⟩
  | look hdeclared =>
    obtain ⟨rfl, rfl⟩ := Entry.exchanged.inj hentry
    exact .inr ⟨_, _, rfl, rfl, hdeclared⟩

/-- The request of a step is the only call that is made in sending it. -/
theorem Issued.calls {result : Except Defect (Issue M)}
    (h : Issued faults config remote target step r past result gained) {entry : Entry}
    (hentry : entry ∈ gained) (hcall : entry.isCall = true) :
    ∃ request answer, step.request target r = .ok request ∧ entry = sent step request answer := by
  have hwaits : entry ∉ settling step r := by
    intro hwait
    rw [Entry.isCall_of_isPause (isPause_of_mem_settling hwait)] at hcall
    exact absurd hcall (by simp)
  cases h with
  | defect => exact absurd hentry hwaits
  | accepted hrequest => exact ⟨_, _, hrequest, by simpa [hwaits] using hentry⟩
  | tolerated hrequest =>
    obtain heq | rfl : entry = _ ∨ entry = _ := by simpa [hwaits] using hentry
    · exact ⟨_, _, hrequest, heq⟩
    · exact absurd hcall (by simp [Entry.isCall])
  | retried hrequest _ _ _ hsuspended =>
    obtain heq | hrest : entry = _ ∨ _ := by simpa [hwaits] using hentry
    · exact ⟨_, _, hrequest, heq⟩
    · rw [Entry.isCall_of_isPause (hsuspended.isPause entry hrest)] at hcall
      exact absurd hcall (by simp)
  | refused hrequest => exact ⟨_, _, hrequest, by simpa [hwaits] using hentry⟩

/-- A look for the effect of a step's request is the only call that is made in looking for it. -/
theorem Stabilized.calls
    {result : Except Defect (Except (Outcome M) (Option Value × ProgressRecord M))}
    (h : Stabilized faults config remote target step r past result gained) {entry : Entry}
    (hentry : entry ∈ gained) (hcall : entry.isCall = true) :
    ∃ s answer, step.stabilization target r = .ok (some s) ∧ entry = looked step s answer := by
  cases h with
  | defect => simp at hentry
  | undeclared => simp at hentry
  | refused hdeclared => exact ⟨_, _, hdeclared, List.mem_singleton.mp hentry⟩
  | stable hdeclared => exact ⟨_, _, hdeclared, List.mem_singleton.mp hentry⟩
  | pending hdeclared _ _ hsuspended =>
    rcases List.mem_cons.mp hentry with heq | hrest
    · exact ⟨_, _, hdeclared, heq⟩
    · rw [Entry.isCall_of_isPause (hsuspended.isPause entry hrest)] at hcall
      exact absurd hcall (by simp)

/-- Completing a step makes no call. -/
theorem Completed.calls {observed : Option Value} {result : Except (Outcome M) (ProgressRecord M)}
    (h : Completed step observed r result gained) {entry : Entry} (hentry : entry ∈ gained) :
    entry.isCall = false := by
  cases h with
  | cooling =>
    obtain rfl := List.mem_singleton.mp hentry
    rfl
  | advanced =>
    obtain rfl := List.mem_singleton.mp hentry
    rfl

/-- The call that is made in sending a request is made by a visit in which the request is new. -/
theorem Issued.madeBy {result : Except Defect (Issue M)} (hnew : r.isInvoked step.name = false)
    (h : Issued faults config remote target step r past result gained) {entry : Entry}
    (hentry : entry ∈ gained) (hcall : entry.isCall = true) : MadeBy target step r entry := by
  obtain ⟨request, answer, hrequest, rfl⟩ := h.calls hentry hcall
  exact .request hnew hrequest

/-- The call that is made in having a request accepted is made by the visit. -/
theorem Accepted.madeBy (h : Accepted faults config remote target step r past r' gained)
    {entry : Entry} (hentry : entry ∈ gained) (hcall : entry.isCall = true) :
    MadeBy target step r entry := by
  cases h with
  | earlier => cases hentry
  | now hnew hissued => exact hissued.madeBy hnew hentry hcall

/-- A look is made by any visit to the step. -/
theorem Stabilized.madeBy
    {result : Except Defect (Except (Outcome M) (Option Value × ProgressRecord M))}
    (h : Stabilized faults config remote target step r' past result gained) {entry : Entry}
    (hentry : entry ∈ gained) (hcall : entry.isCall = true) : MadeBy target step r entry := by
  obtain ⟨s, answer, hdeclared, rfl⟩ := h.calls hentry hcall
  exact .look hdeclared

/-- All calls of a visit are made for the step that is visited. -/
theorem Visited.calls {result : Except Defect (Except (Outcome M) (ProgressRecord M))}
    (h : Visited faults config remote target step r past result gained) {entry : Entry}
    (hentry : entry ∈ gained) (hcall : entry.isCall = true) : MadeBy target step r entry := by
  cases h with
  | unmade hnew hissued => exact hissued.madeBy hnew hentry hcall
  | halted hnew hissued => exact hissued.madeBy hnew hentry hcall
  | tolerated hnew hissued => exact hissued.madeBy hnew hentry hcall
  | unseen haccepted hstabilized =>
    rcases List.mem_append.mp hentry with hfirst | hsecond
    · exact haccepted.madeBy hfirst hcall
    · exact hstabilized.madeBy hsecond hcall
  | unstable haccepted hstabilized =>
    rcases List.mem_append.mp hentry with hfirst | hsecond
    · exact haccepted.madeBy hfirst hcall
    · exact hstabilized.madeBy hsecond hcall
  | shown haccepted hstabilized hcompleted =>
    rw [List.mem_append, List.mem_append] at hentry
    rcases hentry with (hfirst | hsecond) | hthird
    · exact haccepted.madeBy hfirst hcall
    · exact hstabilized.madeBy hsecond hcall
    · rw [hcompleted.calls hthird] at hcall
      exact absurd hcall (by simp)

/-- Sending the request of a step completes the step only if the step lives with its fault. -/
theorem Issued.finished {result : Except Defect (Issue M)}
    (h : Issued faults config remote target step r past result gained) :
    Journal.finished gained =
      match result with
      | .ok .tolerated => [step.name]
      | _ => [] := by
  cases h with
  | defect => exact finished_settling
  | accepted =>
    rw [Journal.finished_append, finished_settling]
    rfl
  | tolerated =>
    rw [Journal.finished_append, finished_settling]
    rfl
  | retried _ _ _ _ hsuspended =>
    have hrest := Journal.finished_of_isPause hsuspended.isPause
    rw [Journal.finished_append, finished_settling]
    exact hrest
  | refused =>
    rw [Journal.finished_append, finished_settling]
    rfl

/-- Looking for the effect of a request completes no step. -/
theorem Stabilized.finished
    {result : Except Defect (Except (Outcome M) (Option Value × ProgressRecord M))}
    (h : Stabilized faults config remote target step r past result gained) :
    Journal.finished gained = [] := by
  cases h with
  | pending _ _ _ hsuspended =>
    have hrest := Journal.finished_of_isPause hsuspended.isPause
    exact hrest
  | _ => rfl

/-- A request that is accepted does not complete the step yet. -/
theorem Accepted.finished (h : Accepted faults config remote target step r past r' gained) :
    Journal.finished gained = [] := by
  cases h with
  | earlier => rfl
  | now _ hissued => exact hissued.finished

/-- A visit says that the step is complete exactly when it goes on to the next one. -/
theorem Visited.finished {result : Except Defect (Except (Outcome M) (ProgressRecord M))}
    (h : Visited faults config remote target step r past result gained) :
    Journal.finished gained =
      match result with
      | .ok (.ok _) => [step.name]
      | _ => [] := by
  cases h with
  | unmade _ hissued => exact hissued.finished
  | halted _ hissued => exact hissued.finished
  | tolerated _ hissued => exact hissued.finished
  | unseen haccepted hstabilized => simp [haccepted.finished, hstabilized.finished]
  | unstable haccepted hstabilized => simp [haccepted.finished, hstabilized.finished]
  | shown haccepted hstabilized hcompleted =>
    rw [Journal.finished_append, Journal.finished_append, haccepted.finished, hstabilized.finished]
    cases hcompleted <;> rfl

/-- A visit to another step leaves this one out. -/
theorem Visited.omits {name : String}
    {result : Except Defect (Except (Outcome M) (ProgressRecord M))} (hne : step.name ≠ name)
    (h : Visited faults config remote target step r past result gained) : gained.Omits name := by
  refine ⟨fun entry hentry => ?_, ?_⟩
  · by_contra hcalls
    rw [Bool.not_eq_false] at hcalls
    have hmade := (h.calls hentry (Entry.isCall_of_callsFor hcalls)).callsFor
    exact hne (Entry.name_eq_of_callsFor hmade hcalls)
  · rw [h.finished]
    split
    · simpa using hne.symm
    · exact List.not_mem_nil

/-- A request that can be made is sent. -/
theorem Issued.exists_sent {result : Except Defect (Issue M)} {request : RemoteRequest}
    (hrequest : step.request target r = .ok request)
    (h : Issued faults config remote target step r past result gained) :
    ∃ answer, sent step request answer ∈ gained := by
  cases h with
  | defect hdefect => cases hrequest.symm.trans hdefect
  | accepted hmade =>
    obtain rfl := Except.ok.inj (hrequest.symm.trans hmade)
    exact ⟨_, List.mem_append_right _ List.mem_cons_self⟩
  | tolerated hmade =>
    obtain rfl := Except.ok.inj (hrequest.symm.trans hmade)
    exact ⟨_, List.mem_append_right _ List.mem_cons_self⟩
  | retried hmade =>
    obtain rfl := Except.ok.inj (hrequest.symm.trans hmade)
    exact ⟨_, List.mem_append_right _ List.mem_cons_self⟩
  | refused hmade =>
    obtain rfl := Except.ok.inj (hrequest.symm.trans hmade)
    exact ⟨_, List.mem_append_right _ List.mem_cons_self⟩

/-- A request that is accepted is sent, unless it was accepted before. -/
theorem Accepted.exists_sent {request : RemoteRequest}
    (hrequest : step.request target r = .ok request)
    (h : Accepted faults config remote target step r past r' gained) :
    r.isInvoked step.name = true ∨ ∃ answer, sent step request answer ∈ gained := by
  cases h with
  | earlier hinvoked => exact .inl hinvoked
  | now _ hissued => exact .inr (hissued.exists_sent hrequest)

/-- A request that can be made is sent, unless it was accepted before. -/
theorem Visited.exists_sent {result : Except Defect (Except (Outcome M) (ProgressRecord M))}
    {request : RemoteRequest} (hrequest : step.request target r = .ok request)
    (h : Visited faults config remote target step r past result gained) :
    r.isInvoked step.name = true ∨ ∃ answer, sent step request answer ∈ gained := by
  have hmore : ∀ {first rest : Journal}, (∃ answer, sent step request answer ∈ first) →
      ∃ answer, sent step request answer ∈ first ++ rest := by
    rintro first rest ⟨answer, hsent⟩
    exact ⟨answer, List.mem_append_left rest hsent⟩
  cases h with
  | unmade _ hissued => exact .inr (hissued.exists_sent hrequest)
  | halted _ hissued => exact .inr (hissued.exists_sent hrequest)
  | tolerated _ hissued => exact .inr (hissued.exists_sent hrequest)
  | unseen haccepted => exact (haccepted.exists_sent hrequest).imp_right hmore
  | unstable haccepted => exact (haccepted.exists_sent hrequest).imp_right hmore
  | shown haccepted =>
    rw [List.append_assoc]
    exact (haccepted.exists_sent hrequest).imp_right hmore

/-- A request that is accepted leaves the record of an accepted request. -/
theorem Issued.eq_accepted {result : Except Defect (Issue M)} {request : RemoteRequest}
    {response : Value} (h : Issued faults config remote target step r past result gained)
    (hsent : sent step request (.ok response) ∈ gained) :
    step.request target r = .ok request ∧
      result = .ok (.accepted (acceptedRecord step response r)) := by
  have hwaits : sent step request (.ok response) ∉ settling step r := by
    intro hwait
    cases isPause_of_mem_settling hwait
  cases h with
  | defect => exact absurd hsent hwaits
  | accepted hrequest =>
    rw [List.mem_append, or_iff_right hwaits, List.mem_singleton] at hsent
    cases hsent
    exact ⟨hrequest, rfl⟩
  | tolerated =>
    rw [List.mem_append, or_iff_right hwaits] at hsent
    simp [sent] at hsent
  | retried _ _ _ _ hsuspended =>
    rw [List.mem_append, or_iff_right hwaits, List.mem_cons] at hsent
    rcases hsent with heq | hmem
    · cases heq
    · cases hsuspended.isPause _ hmem
  | refused =>
    rw [List.mem_append, or_iff_right hwaits, List.mem_singleton] at hsent
    cases hsent

/-- A step whose request has no effect to wait for is complete when its request is accepted. -/
theorem Visited.eq_completed {result : Except Defect (Except (Outcome M) (ProgressRecord M))}
    {request : RemoteRequest} {response : Value}
    (hdeclared : ∀ r, step.stabilization target r = .ok none)
    (hcompletion : ∀ observed r, step.onComplete observed r = (.advance, r))
    (h : Visited faults config remote target step r past result gained)
    (hsent : sent step request (.ok response) ∈ gained) :
    step.request target r = .ok request ∧
      result = .ok (.ok ((acceptedRecord step response r).markDone step.name)) := by
  cases h with
  | unmade _ hissued => cases (hissued.eq_accepted hsent).2
  | halted _ hissued => cases (hissued.eq_accepted hsent).2
  | tolerated _ hissued => cases (hissued.eq_accepted hsent).2
  | @unseen r₁ _ _ _ _ hstabilized =>
    cases hstabilized with
    | defect hdefect => cases (hdeclared r₁).symm.trans hdefect
  | @unstable r₁ _ _ _ _ hstabilized =>
    cases hstabilized with
    | refused hlooks => cases (hdeclared r₁).symm.trans hlooks
    | pending hlooks => cases (hdeclared r₁).symm.trans hlooks
  | @shown r₁ _ _ _ first _ third haccepted hstabilized hcompleted =>
    cases hstabilized with
    | stable hlooks => cases (hdeclared r₁).symm.trans hlooks
    | undeclared =>
      have hthird : sent step request (.ok response) ∉ third := by
        intro hmem
        cases hcompleted.calls hmem
      have hfirst : sent step request (.ok response) ∈ first := by simpa [hthird] using hsent
      cases haccepted with
      | earlier => simp at hfirst
      | now _ hissued =>
        obtain ⟨hrequest, haccepts⟩ := hissued.eq_accepted hfirst
        cases haccepts
        cases hcompleted with
        | cooling hcools => cases (hcompletion _ _).symm.trans hcools
        | advanced hadvances =>
          obtain ⟨rfl, rfl⟩ := Prod.mk.inj ((hcompletion _ _).symm.trans hadvances)
          exact ⟨hrequest, rfl⟩

end Chain

namespace Run

/-- Each call of a run is made by a visit to a step, on top of all that is before the visit. -/
theorem throughout_madeBy (run : Run M) (limit : Nat) :
    Journal.Throughout (fun before entry => entry.isCall = true →
      ∃ n step steps r past between, run.Arrives n (step :: steps) r past ∧
        Chain.takesUp (run.targets n) step r = true ∧
        Chain.MadeBy (run.targets n) step r entry ∧ before = past ++ between)
      (run.journal limit) := by
  refine throughout_journal ?_ limit
  intro n step steps r past result gained harrives htakes hvisited before entry after hsplit hcall
  exact ⟨n, step, steps, r, past, before, harrives, htakes,
    hvisited.calls (by simp [hsplit]) hcall, rfl⟩

/-- Each call of a run is made by a visit to a step that is taken up. -/
theorem exists_madeBy {run : Run M} {limit : Nat} {entry : Entry}
    (hentry : entry ∈ run.journal limit) (hcall : entry.isCall = true) :
    ∃ n step steps r past, run.Arrives n (step :: steps) r past ∧
      Chain.takesUp (run.targets n) step r = true ∧ Chain.MadeBy (run.targets n) step r entry := by
  obtain ⟨before, after, hsplit⟩ := List.append_of_mem hentry
  obtain ⟨n, step, steps, r, past, _, harrives, htakes, hmade, _⟩ :=
    run.throughout_madeBy limit before entry after hsplit hcall
  exact ⟨n, step, steps, r, past, harrives, htakes, hmade⟩

/-- A pass stops at a defect only if a step that it takes up cannot make its request, or cannot tell
how to look for the effect. -/
theorem Ends.exists_outcome {run : Run M}
    (hmade : ∀ {n step steps r past}, run.Arrives n (step :: steps) r past →
      Chain.takesUp (run.targets n) step r = true →
      (∃ request, step.request (run.targets n) r = .ok request) ∧
        ∀ r', ∃ l, step.stabilization (run.targets n) r' = .ok l)
    {n : Nat} {result : Except Defect (Outcome M)} {journal : Journal}
    (hends : run.Ends n result journal) : ∃ outcome, result = .ok outcome := by
  cases hends with
  | finished => exact ⟨_, rfl⟩
  | stopped => exact ⟨_, rfl⟩
  | broke harrives htakes hvisit =>
    obtain ⟨⟨request, hrequest⟩, hlooks⟩ := hmade harrives htakes
    obtain ⟨gained, _, hvisited⟩ := Chain.visited_of_run hvisit
    cases hvisited with
    | unmade _ hissued =>
      cases hissued with
      | defect hdefect => cases hrequest.symm.trans hdefect
    | @unseen r₁ _ _ _ _ hstabilized =>
      cases hstabilized with
      | defect hdefect =>
        obtain ⟨l, hl⟩ := hlooks r₁
        cases hl.symm.trans hdefect

end Run

end Lifecycle
