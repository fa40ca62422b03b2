import Lifecycle.Proofs.Cluster.Gates
import Lifecycle.Proofs.Conclusions

/-!
# Operations that are carried out once

In a run of the cluster family an operation that changes something is carried out once
at most, however often its request is turned away (`countP_fulfills_le_one`). When the
run succeeds, the operation of each step that applies is carried out (`countP_fulfills`).
-/

namespace Lifecycle.Cluster

open Json ProgressRecord Chain

/-- Whether an exchange carries out an operation: the call is accepted, or the policy that it is to
remove is gone already. -/
def fulfills (operation : String) (exchange : Exchange) : Bool :=
  isFor operation exchange.call &&
    match exchange.answer with
    | .ok _ => true
    | .error fault => operation == "DeleteResourcePolicy" && (faults.classify fault).isNotFound

/-- Whether an exchange is a call for an operation that is accepted. -/
def accepts (operation : String) (exchange : Exchange) : Bool :=
  isFor operation exchange.call && exchange.answer.isOk

variable {s : Settings} {scope : ResourceScope} {name operation : String}

/-- Nothing but the removal of the policy is carried out unless the call is accepted. -/
theorem fulfills_eq_accepts (h : operation ≠ "DeleteResourcePolicy") :
    fulfills operation = accepts operation := by
  funext ⟨call, answer⟩
  cases answer with
  | ok => rfl
  | error =>
    have hother : (operation == "DeleteResourcePolicy") = false := beq_false_of_ne h
    simp [fulfills, accepts, hother, Except.isOk, Except.toBool]

/-- Two steps live with faults: removing the policy when it is gone already, and reading it. -/
theorem suppress_imp : ∀ step ∈ steps s scope, ∀ fault target, step.suppress fault target = true →
    step.name = "get-resource-policy" ∨
      step.name = "delete-resource-policy" ∧ fault.isNotFound = true := by
  intro step hstep fault target h
  cases (suppress_iff step hstep fault target).mp h with
  | removedPolicy hname hgone => exact .inr ⟨hname, beq_iff_eq.mpr hgone⟩
  | noPolicy hname => exact .inl hname
  | hiddenPolicy hname => exact .inl hname

/-- If the requests of steps that apply read or are wanted, then each call reads or is such a
request. -/
theorem isReading_or_wanted {kind : Operation} {target : Target Cluster} {run : Run Cluster}
    {limit : Nat} (hrun : (family s scope).CarriesOut kind target run)
    {wanted : RemoteRequest → Prop}
    (hrequests : ∀ step ∈ run.chain.steps, ∀ r request, step.shouldRun target r = true →
      step.request target r = .ok request → isReading (.invoke request) = true ∨ wanted request)
    {call : Call} (hcall : call ∈ (run.journal limit).calls) :
    isReading call = true ∨ ∃ request, call = .invoke request ∧ wanted request := by
  obtain ⟨exchange, hexchange, rfl⟩ := List.mem_map.mp hcall
  obtain ⟨purpose, hentry⟩ := Journal.mem_exchanges.mp hexchange
  obtain ⟨n, step, rest, r, past, harrives, htakes, hmade⟩ := Run.exists_madeBy hentry rfl
  rw [hrun.targets] at hmade htakes
  rcases hmade.request_or_look with ⟨request, _, hcall, hrequest⟩ | ⟨r', l, _, hcall, hdeclared⟩
  · have happlies := (Bool.and_eq_true_iff.mp htakes).2
    rw [hcall]
    exact (hrequests step harrives.mem r request happlies hrequest).imp_right
      fun hwanted => ⟨request, rfl, hwanted⟩
  · have hstep := mem_steps_of_chain hrun.chain harrives.mem
    rw [hcall]
    exact .inl (isReading_stabilization hstep hdeclared)

section Runs

variable {kind : Operation} {target : Target Cluster} {run : Run Cluster} {limit : Nat}
  (hrun : (family s scope).CarriesOut kind target run)
  (hoperation : (name, operation) ∈ operations)
  (hchanges : ∀ request, request.operation = operation → isReading (.invoke request) = false)
include hrun hoperation hchanges

/-- A call that carries out an operation is the conclusive one of the step. -/
theorem concludes_of_fulfills {purpose : Purpose} {exchange : Exchange}
    (hentry : .exchanged purpose exchange ∈ run.journal limit)
    (h : fulfills operation exchange = true) :
    (Entry.exchanged purpose exchange).concludes run.faults name = true := by
  obtain ⟨hfor, hanswer⟩ := Bool.and_eq_true_iff.mp h
  have hsends := (sends_eq_isFor hrun.chain hoperation hchanges hentry).trans hfor
  obtain ⟨call, answer⟩ := exchange
  cases purpose with
  | mutation step =>
    cases answer with
    | ok => exact hsends
    | error fault =>
      have hfaults : run.faults = faults := hrun.faults
      have hgone := (Bool.and_eq_true_iff.mp hanswer).2
      simp only [Entry.concludes, hfaults, ClassifiedFault.isRetryable_of_terminal (eq_of_beq hgone)]
      exact Bool.and_eq_true_iff.mpr ⟨hsends, rfl⟩
  | _ => cases hsends

/-- An operation that changes something is carried out once at most. -/
theorem countP_fulfills_le_one : (run.journal limit).exchanges.countP (fulfills operation) ≤ 1 :=
  Nat.le_trans
    (Journal.countP_exchanges_le fun _ _ => concludes_of_fulfills hrun hoperation hchanges)
    (run.countP_concludes_le_one (keepsMarks_run hrun) limit name)

/-- When a run succeeds, the operation of a step that applies is carried out once. -/
theorem countP_fulfills {step : Step Cluster} (hstep : step ∈ run.chain.steps)
    (hname : step.name = name) (hverdict : run.Verdict step true) {n : Nat} {model : Option Cluster}
    (hends : run.Ends n (.ok (.success model)) (run.journal limit)) :
    (run.journal limit).exchanges.countP (fulfills operation) = 1 := by
  subst hname
  refine Nat.le_antisymm (countP_fulfills_le_one hrun hoperation hchanges)
    (List.countP_pos_iff.mpr ?_)
  have hcompletes := hends.completes_of_success (namesApart hrun.chain) (keepsMarks_run hrun)
    hrun.start hstep hverdict
  have hfor : ∀ {request answer}, sent step request answer ∈ run.journal limit →
      isFor operation (.invoke request) = true := fun hsent =>
    (sends_eq_isFor hrun.chain hoperation hchanges hsent).symm.trans (by simp [Entry.sends])
  rcases hcompletes.sent_or_tolerated with
    ⟨request, response, hsent⟩ | ⟨request, fault, n, hsent, h⟩
  · refine ⟨_, Journal.mem_exchanges.mpr ⟨_, hsent⟩, ?_⟩
    exact Bool.and_eq_true_iff.mpr ⟨hfor hsent, rfl⟩
  · refine ⟨_, Journal.mem_exchanges.mpr ⟨_, hsent⟩, ?_⟩
    rw [show run.faults = faults from hrun.faults] at h
    rcases suppress_imp step (mem_steps_of_chain hrun.chain hstep) _ _ h with
      hget | ⟨hdelete, hgone⟩
    · obtain rfl : operation = "GetResourcePolicy" := by simpa [operations, hget] using hoperation
      exact absurd (hchanges ⟨_, .null⟩ rfl) (by decide)
    · obtain rfl : operation = "DeleteResourcePolicy" := by
        simpa [operations, hdelete] using hoperation
      exact Bool.and_eq_true_iff.mpr ⟨hfor hsent, hgone⟩

end Runs

end Lifecycle.Cluster
