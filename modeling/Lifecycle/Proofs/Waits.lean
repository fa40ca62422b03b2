import Lifecycle.Proofs.Calls

/-!
# Waits in place and calls of a visit

A visit waits in place and sends its request only as long as the request is not accepted.
`Visited.waits` says which waits it leaves in the journal, `Visited.exists_exchanges` which
calls.
-/

namespace Lifecycle

open Json

variable {M : Type}

/-- The seconds of a wait in place. -/
def Entry.wait? : Entry → Option UInt64
  | .waited _ seconds => some seconds
  | _ => none

namespace Journal

/-- The waits in place of a journal, in seconds. -/
def waits (j : Journal) : List UInt64 := j.filterMap Entry.wait?

@[simp] theorem waits_append (past gained : Journal) :
    waits (past ++ gained) = waits past ++ waits gained := List.filterMap_append

end Journal

namespace Chain

variable {faults : FaultTable} {config : ChainConfig} {remote : Remote} {target : Target M}
  {step : Step M} {r r' : ProgressRecord M} {past gained : Journal} {request : RemoteRequest}

/-- Before its request a step waits as it asks for. -/
@[simp] theorem waits_settling : (settling step r).waits = (step.settle r).toList := by
  rw [settling]
  cases step.settle r <;> rfl

/-- Waiting calls nothing. -/
@[simp] theorem exchanges_settling_eq_nil : (settling step r).exchanges = [] := by
  rw [settling]
  cases step.settle r <;> rfl

/-- A suspension neither waits in place nor calls anything. -/
theorem Suspended.waits_exchanges {cause : SuspensionCause} {policy : BackoffPolicy}
    {counter : String} {exhausted outcome : Outcome M}
    (h : Suspended step cause policy counter r exhausted outcome gained) :
    gained.waits = [] ∧ gained.exchanges = [] := by
  cases h <;> exact ⟨rfl, rfl⟩

/-- Sending a request waits as the step asks for. -/
theorem Issued.waits {result : Except Defect (Issue M)}
    (h : Issued faults config remote target step r past result gained) :
    gained.waits = (step.settle r).toList := by
  have hlast : ∀ {rest : Journal}, rest.waits = [] →
      Journal.waits (settling step r ++ rest) = (step.settle r).toList := by
    intro rest hrest
    rw [Journal.waits_append, waits_settling, hrest, List.append_nil]
  cases h with
  | defect => exact waits_settling
  | accepted => exact hlast rfl
  | tolerated => exact hlast rfl
  | retried _ _ _ _ hsuspended => exact hlast hsuspended.waits_exchanges.1
  | refused => exact hlast rfl

/-- Sending a request that can be made calls for it and for nothing else. -/
theorem Issued.exists_exchange {result : Except Defect (Issue M)}
    (hrequest : step.request target r = .ok request)
    (h : Issued faults config remote target step r past result gained) :
    ∃ answer, gained.exchanges = [⟨.invoke request, answer⟩] := by
  have hlast : ∀ {request' : RemoteRequest} {answer : Answer} {rest : Journal},
      step.request target r = .ok request' → rest.exchanges = [] →
      Journal.exchanges (settling step r ++ sent step request' answer :: rest) =
        [⟨.invoke request, answer⟩] := by
    intro request' answer rest hmade hrest
    obtain rfl := Except.ok.inj (hrequest.symm.trans hmade)
    rw [Journal.exchanges_append, exchanges_settling_eq_nil, List.nil_append]
    exact congrArg _ hrest
  cases h with
  | defect hdefect => cases hrequest.symm.trans hdefect
  | accepted hmade => exact ⟨_, hlast hmade rfl⟩
  | tolerated hmade => exact ⟨_, hlast hmade rfl⟩
  | retried hmade _ _ _ hsuspended => exact ⟨_, hlast hmade hsuspended.waits_exchanges.2⟩
  | refused hmade => exact ⟨_, hlast hmade rfl⟩

/-- Looking for an effect does not wait in place. -/
theorem Stabilized.waits
    {result : Except Defect (Except (Outcome M) (Option Value × ProgressRecord M))}
    (h : Stabilized faults config remote target step r past result gained) :
    gained.waits = [] := by
  cases h with
  | pending _ _ _ hsuspended => exact hsuspended.waits_exchanges.1
  | _ => rfl

/-- Completing a step neither waits in place nor calls anything. -/
theorem Completed.waits_exchanges {observed : Option Value}
    {result : Except (Outcome M) (ProgressRecord M)}
    (h : Completed step observed r result gained) : gained.waits = [] ∧ gained.exchanges = [] := by
  cases h <;> exact ⟨rfl, rfl⟩

/-- A visit waits as the step asks for, unless the request was accepted before. -/
theorem Visited.waits {result : Except Defect (Except (Outcome M) (ProgressRecord M))}
    (h : Visited faults config remote target step r past result gained) :
    gained.waits = if r.isInvoked step.name then [] else (step.settle r).toList := by
  have hnow : ∀ {result : Except Defect (Issue M)} {first : Journal},
      r.isInvoked step.name = false →
      Issued faults config remote target step r past result first →
      first.waits = if r.isInvoked step.name then [] else (step.settle r).toList := by
    intro result first hnew hissued
    rw [hissued.waits, hnew, if_neg Bool.false_ne_true]
  have hfirst : ∀ {r₁ : ProgressRecord M} {first : Journal},
      Accepted faults config remote target step r past r₁ first →
      first.waits = if r.isInvoked step.name then [] else (step.settle r).toList := by
    intro r₁ first haccepted
    cases haccepted with
    | earlier hinvoked => rw [hinvoked, if_pos rfl]; rfl
    | now hnew hissued => exact hnow hnew hissued
  cases h with
  | unmade hnew hissued | halted hnew hissued | tolerated hnew hissued => exact hnow hnew hissued
  | unseen haccepted hstabilized | unstable haccepted hstabilized =>
    rw [Journal.waits_append, hfirst haccepted, hstabilized.waits, List.append_nil]
  | shown haccepted hstabilized hcompleted =>
    rw [Journal.waits_append, Journal.waits_append, hfirst haccepted, hstabilized.waits,
      hcompleted.waits_exchanges.1, List.append_nil, List.append_nil]

/-- What a visit calls before it looks for the effect: the request, unless it was accepted
before. -/
def Requests (step : Step M) (request : RemoteRequest) (r : ProgressRecord M)
    (exchanges : List Exchange) : Prop :=
  if r.isInvoked step.name then exchanges = []
  else ∃ answer, exchanges = [⟨.invoke request, answer⟩]

/-- A visit calls for the request, unless it was accepted before, and then looks for the effect. -/
theorem Visited.exists_exchanges {result : Except Defect (Except (Outcome M) (ProgressRecord M))}
    (hrequest : step.request target r = .ok request)
    (h : Visited faults config remote target step r past result gained) :
    ∃ first looks, gained.exchanges = first ++ looks ∧ Requests step request r first ∧
      ∀ look ∈ looks, ∃ r' l, step.stabilization target r' = .ok (some l) ∧
        look.call = l.probe.call := by
  have hnow : ∀ {result : Except Defect (Issue M)} {first : Journal},
      r.isInvoked step.name = false →
      Issued faults config remote target step r past result first →
      Requests step request r first.exchanges := by
    intro result first hnew hissued
    rw [Requests, hnew, if_neg Bool.false_ne_true]
    exact hissued.exists_exchange hrequest
  have hfirst : ∀ {r₁ : ProgressRecord M} {first : Journal},
      Accepted faults config remote target step r past r₁ first →
      Requests step request r first.exchanges := by
    intro r₁ first haccepted
    cases haccepted with
    | earlier hinvoked => rw [Requests, if_pos hinvoked]; rfl
    | now hnew hissued => exact hnow hnew hissued
  have hlooks : ∀ {r₁ : ProgressRecord M} {past second : Journal} {result},
      Stabilized faults config remote target step r₁ past result second →
      ∀ look ∈ second.exchanges, ∃ r' l, step.stabilization target r' = .ok (some l) ∧
        look.call = l.probe.call := by
    intro r₁ past second result hstabilized look hlook
    obtain ⟨purpose, hentry⟩ := Journal.mem_exchanges.mp hlook
    obtain ⟨l, answer, hdeclared, hlooked⟩ := hstabilized.calls hentry rfl
    cases hlooked
    exact ⟨r₁, l, hdeclared, rfl⟩
  cases h with
  | unmade hnew hissued | halted hnew hissued | tolerated hnew hissued =>
    exact ⟨_, [], (List.append_nil _).symm, hnow hnew hissued, nofun⟩
  | unseen haccepted hstabilized | unstable haccepted hstabilized =>
    exact ⟨_, _, Journal.exchanges_append _ _, hfirst haccepted, hlooks hstabilized⟩
  | shown haccepted hstabilized hcompleted =>
    refine ⟨_, _, ?_, hfirst haccepted, hlooks hstabilized⟩
    rw [Journal.exchanges_append, Journal.exchanges_append, hcompleted.waits_exchanges.2,
      List.append_nil]

end Chain

end Lifecycle
