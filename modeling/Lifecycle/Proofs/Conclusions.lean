import Lifecycle.Proofs.Requests
import Lifecycle.Proofs.Verdicts

/-!
# Conclusive answers

The request of a step may be turned away many times before it meets an answer after
which it is not sent again: it is accepted, or meets a fault that will not pass. In a
run there is one such answer at most (`Run.countP_concludes_le_one`), and a run that
succeeds has one for each step that applies (`Run.Ends.completes_of_success`). So an operation
that one step alone asks for is accepted once (`Run.AskedBy.countP_isAccepted`).
-/

namespace Lifecycle

open Json ProgressRecord Chain

variable {M : Type}

/-- Whether an entry is the request of a step with an answer after which it is not sent again: the
request is accepted, or meets a fault that will not pass. -/
def Entry.concludes (faults : FaultTable) (name : String) : Entry → Bool
  | .exchanged (.mutation step) ⟨_, .ok _⟩ => step = name
  | .exchanged (.mutation step) ⟨_, .error fault⟩ =>
    step = name && !(faults.classify fault).isRetryable
  | _ => false

/-- Whether an exchange is a call for an operation that is accepted. -/
def Exchange.isAccepted (operation : String) : Exchange → Bool
  | ⟨.invoke request, .ok _⟩ => request.operation == operation
  | _ => false

/-- A request with a conclusive answer is a request. -/
theorem Entry.sends_of_concludes {faults : FaultTable} {name : String} {entry : Entry}
    (h : entry.concludes faults name = true) : entry.sends name = true := by
  rcases entry with ⟨_ | _ | _, _, _ | _⟩ | _ | _ | _ | _
  · exact (Bool.and_eq_true_iff.mp h).1
  · exact h
  all_goals cases h

namespace Chain

variable {faults : FaultTable} {config : ChainConfig} {remote : Remote} {target : Target M}
  {step : Step M} {r r' : ProgressRecord M} {past gained : Journal} {name : String}

/-- A request that is accepted is settled by that. -/
theorem Accepted.exists_settles (h : Accepted faults config remote target step r past r' gained)
    {entry : Entry} (hentry : entry ∈ gained) (hsends : entry.sends name = true) :
    entry.settles name = true := by
  cases h with
  | earlier => cases hentry
  | now _ hissued =>
    cases hissued with
    | accepted =>
      rcases List.mem_append.mp hentry with hwait | hsent
      · rw [(Entry.quiet_of_isPause (isPause_of_mem_settling hwait)).1] at hsends
        cases hsends
      · obtain rfl := List.mem_singleton.mp hsent
        exact hsends

/-- A visit in which a request meets its conclusive answer settles the request, or ends the
operation. -/
theorem Visited.exists_settles {result : Except Defect (Except (Outcome M) (ProgressRecord M))}
    (h : Visited faults config remote target step r past result gained)
    (hleft : recordLeft? result = some r') {entry : Entry} (hentry : entry ∈ gained)
    (hconcludes : entry.concludes faults name = true) :
    ∃ other ∈ gained, other.settles name = true := by
  have hsends := Entry.sends_of_concludes hconcludes
  have hquiet : ∀ {others : Journal}, (∀ other ∈ others,
      other.sends name = false ∧ other.settles name = false) → entry ∉ others := by
    intro others hothers hmem
    rw [(hothers entry hmem).1] at hsends
    cases hsends
  have hwaits : entry ∉ settling step r :=
    hquiet fun _ hwait => Entry.quiet_of_isPause (isPause_of_mem_settling hwait)
  cases h with
  | unmade => cases hleft
  | halted _ hissued =>
    cases hissued with
    | refused => cases hleft
    | retried _ _ _ hretryable hsuspended =>
      rw [List.mem_append, or_iff_right hwaits, List.mem_cons] at hentry
      rcases hentry with rfl | hpause
      · simp [sent, Entry.concludes, hretryable] at hconcludes
      · exact absurd hpause
          (hquiet fun _ hother => Entry.quiet_of_isPause (hsuspended.isPause _ hother))
  | tolerated _ hissued =>
    cases hissued with
    | tolerated =>
      rw [List.mem_append, or_iff_right hwaits, List.mem_cons, List.mem_singleton] at hentry
      rcases hentry with rfl | rfl
      · exact ⟨.tolerated step.name, by simp, hsends⟩
      · cases hsends
  | unseen => cases hleft
  | unstable haccepted hstabilized =>
    have hfirst := (List.mem_append.mp hentry).resolve_right (hquiet hstabilized.quiet)
    exact ⟨entry, hentry, haccepted.exists_settles hfirst hsends⟩
  | @shown _ _ _ _ first _ _ haccepted hstabilized hcompleted =>
    have hfirst : entry ∈ first := by
      simpa [hquiet hstabilized.quiet, hquiet hcompleted.quiet] using hentry
    exact ⟨entry, hentry, haccepted.exists_settles hfirst hsends⟩

end Chain

namespace Run

variable {run : Run M} {n : Nat} {step : Step M} {steps : List (Step M)} {r : ProgressRecord M}
  {past journal : Journal} {name : String}

/-- As long as a run goes on, a request that met its conclusive answer is settled. -/
theorem Arrives.exists_settles (harrives : run.Arrives n steps r past)
    (hconcludes : ∃ entry ∈ past, entry.concludes run.faults name = true) :
    ∃ entry ∈ past, entry.settles name = true := by
  refine harrives.invariant (I := fun _ past =>
    (∃ entry ∈ past, entry.concludes run.faults name = true) →
      ∃ entry ∈ past, entry.settles name = true) ?_ ?_ ?_ hconcludes
  · rintro ⟨_, hnone, _⟩
    cases hnone
  · exact fun _ _ _ ih => ih
  · rintro n step steps r r' past result gained _ _ hvisited hleft ih ⟨entry, hentry, hconcludes⟩
    rcases List.mem_append.mp hentry with hpast | hgained
    · obtain ⟨other, hother, hsettles⟩ := ih ⟨entry, hpast, hconcludes⟩
      exact ⟨other, List.mem_append_left gained hother, hsettles⟩
    · obtain ⟨other, hother, hsettles⟩ := hvisited.exists_settles hleft hgained hconcludes
      exact ⟨other, List.mem_append_right past hother, hsettles⟩

/-- A request that met its conclusive answer is not sent again. -/
theorem throughout_concludes (run : Run M) (hkeeps : ∀ step ∈ run.chain.steps, step.KeepsMarks)
    (limit : Nat) (name : String) :
    Journal.Throughout (fun before entry => entry.sends name = true →
      ∀ other ∈ before, other.concludes run.faults name = false) (run.journal limit) := by
  refine throughout_journal ?_ limit
  intro n step steps r past result gained harrives htakes hvisited
  refine (hvisited.throughout_once name).imp ?_
  intro before entry _ hsent hsends other hother
  obtain ⟨⟨rfl, hnew⟩, hbefore⟩ := hsent hsends
  have hopen : r.isSpent step.name = false := by
    rw [takesUp_iff] at htakes
    rw [ProgressRecord.isSpent, hnew, htakes.1, Bool.or_self]
  by_contra hconcludes
  rw [Bool.not_eq_false] at hconcludes
  rcases List.mem_append.mp hother with hpast | hvisit
  · have hsettled := harrives.exists_settles ⟨other, hpast, hconcludes⟩
    cases hopen.symm.trans (harrives.isSpent hkeeps (.inl hsettled))
  · cases (hbefore other hvisit).1.symm.trans (Entry.sends_of_concludes hconcludes)

/-- The request of a step meets one conclusive answer at most. -/
theorem countP_concludes_le_one (run : Run M) (hkeeps : ∀ step ∈ run.chain.steps, step.KeepsMarks)
    (limit : Nat) (name : String) :
    (run.journal limit).countP (·.concludes run.faults name) ≤ 1 := by
  refine Journal.countP_le_one_of_throughout ((run.throughout_concludes hkeeps limit name).imp ?_)
  intro before entry _ hentry hconcludes
  exact hentry (Entry.sends_of_concludes hconcludes)

/-- A run that succeeds has completed each step whose verdict is that it applies. -/
theorem Ends.completes_of_success (hnames : run.chain.NamesApart)
    (hkeeps : ∀ step ∈ run.chain.steps, step.KeepsMarks) (hstart : run.start = .empty)
    (hstep : step ∈ run.chain.steps) (hverdict : run.Verdict step true) {model : Option M}
    (hends : run.Ends n (.ok (.success model)) journal) : run.Completes step journal := by
  obtain ⟨r, harrives⟩ := hends.exists_arrives_of_success
  have hdone := harrives.isDone_of_mem_front hkeeps hverdict (List.append_nil _).symm hstep
  exact harrives.completes_of_isDone hnames hkeeps hstart hstep hdone

/-- In a run one step asks for an operation; the others ask for something else. Looks for the effect
of a request ask for nothing. -/
structure AskedBy (run : Run M) (operation : String) (step : Step M) : Prop where
  /-- The step is one of the chain. -/
  mem : step ∈ run.chain.steps
  /-- Its requests are the ones for the operation. -/
  asks : ∀ n, ∀ other ∈ run.chain.steps, ∀ r request, other.request (run.targets n) r = .ok request →
    (request.operation = operation ↔ other = step)
  /-- Effects are looked for by looks at a resource. -/
  looks : ∀ n, ∀ other ∈ run.chain.steps, ∀ r s, other.stabilization (run.targets n) r = .ok (some s) →
    ∃ resource, s.probe = .describe resource

section AskedBy

variable {operation : String} (hasked : run.AskedBy operation step) {limit : Nat}
include hasked

/-- A call for the operation is made by a visit that takes up the step, and is the request of the
step. -/
theorem AskedBy.exists_request {purpose : Purpose} {request : RemoteRequest} {answer : Answer}
    (hentry : .exchanged purpose ⟨.invoke request, answer⟩ ∈ run.journal limit)
    (hoperation : request.operation = operation) :
    purpose = .mutation step.name ∧ ∃ n rest r past, run.Arrives n (step :: rest) r past ∧
      takesUp (run.targets n) step r = true ∧ step.request (run.targets n) r = .ok request := by
  obtain ⟨n, other, rest, r, past, harrives, htakes, hmade⟩ := exists_madeBy hentry rfl
  rcases hmade.request_or_look with ⟨_, rfl, hcall, hrequest⟩ | ⟨_, s, rfl, hcall, hdeclared⟩
  · obtain rfl := Call.invoke.inj hcall
    obtain rfl := (hasked.asks n other harrives.mem _ _ hrequest).mp hoperation
    exact ⟨rfl, n, rest, r, past, harrives, htakes, hrequest⟩
  · obtain ⟨resource, hprobe⟩ := hasked.looks n other harrives.mem _ _ hdeclared
    rw [hprobe] at hcall
    cases hcall

/-- An accepted call for the operation is the request of the step with its conclusive answer. -/
theorem AskedBy.concludes_of_isAccepted {purpose : Purpose} {exchange : Exchange}
    (hentry : .exchanged purpose exchange ∈ run.journal limit)
    (haccepted : exchange.isAccepted operation = true) :
    (Entry.exchanged purpose exchange).concludes run.faults step.name = true := by
  obtain ⟨request | _, answer⟩ := exchange
  · cases answer with
    | ok response =>
      obtain ⟨rfl, -⟩ := hasked.exists_request hentry (eq_of_beq haccepted)
      exact decide_eq_true rfl
    | error => cases haccepted
  · cases haccepted

variable (hnames : run.chain.NamesApart)
include hnames

/-- An accepted request of the step is an accepted call for the operation. -/
theorem AskedBy.isAccepted_of_sent {request : RemoteRequest} {response : Value}
    (hentry : sent step request (.ok response) ∈ run.journal limit) :
    Exchange.isAccepted operation ⟨.invoke request, .ok response⟩ = true := by
  obtain ⟨n, other, rest, r, past, harrives, -, hmade⟩ := exists_madeBy hentry rfl
  rcases hmade.request_or_look with ⟨_, hpurpose, hcall, hrequest⟩ | ⟨_, _, hpurpose, -⟩
  · obtain rfl := Call.invoke.inj hcall
    obtain rfl := hnames.eq_of_name_eq hasked.mem harrives.mem (Purpose.mutation.inj hpurpose)
    exact beq_iff_eq.mpr ((hasked.asks n step harrives.mem _ _ hrequest).mpr rfl)
  · cases hpurpose

/-- When a run succeeds in which the step always applies and lives with no fault, the operation was
accepted exactly once. -/
theorem AskedBy.countP_isAccepted (hkeeps : ∀ step ∈ run.chain.steps, step.KeepsMarks)
    (hstart : run.start = .empty) (hverdict : run.Verdict step true)
    (hsuppress : ∀ fault target, step.suppress fault target = false) {model : Option M}
    (hends : run.Ends n (.ok (.success model)) (run.journal limit)) :
    (run.journal limit).exchanges.countP (·.isAccepted operation) = 1 := by
  refine Nat.le_antisymm ?_ (List.countP_pos_iff.mpr ?_)
  · exact Nat.le_trans
      (Journal.countP_exchanges_le fun _ _ hentry => hasked.concludes_of_isAccepted hentry)
      (run.countP_concludes_le_one hkeeps limit step.name)
  · have hcompletes := hends.completes_of_success hnames hkeeps hstart hasked.mem hverdict
    obtain ⟨request, response, hsent⟩ := hcompletes.sent hsuppress
    exact ⟨_, Journal.mem_exchanges.mpr ⟨_, hsent⟩, hasked.isAccepted_of_sent hnames hsent⟩

end AskedBy

end Run

end Lifecycle
