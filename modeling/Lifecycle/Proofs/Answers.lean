import Lifecycle.Proofs.Conclusions
import Lifecycle.Proofs.Invocations
import Lifecycle.Proofs.Replay

/-!
# Answers to the requests of steps

A run that succeeds has one answer to the request of each step that applies and lives with no
fault (`Run.Ends.exists_answersTo_eq`), and never more than one to the request of any step
(`Run.exists_answersTo_eq_toList`). Such a step is answered before any step behind it is
(`Run.throughout_answered`), in whatever passes the answers come in.
-/

namespace Lifecycle

open Json ProgressRecord Chain

variable {M α : Type} {name : String} {entry : Entry}

/-- The answer with which an entry has the request of a step accepted. -/
def Entry.answerTo? (name : String) : Entry → Option Value
  | .exchanged (.mutation step) ⟨_, .ok response⟩ => if step = name then some response else none
  | _ => none

/-- The answers with which the request of a step was accepted, oldest first. -/
def Journal.answersTo (name : String) (j : Journal) : List Value :=
  j.filterMap (Entry.answerTo? name)

/-- Brings something up to date by the answers to the request of a step. -/
def absorb (name : String) (f : Value → α → α) (a : α) (entry : Entry) : α :=
  match entry.answerTo? name with
  | some response => f response a
  | none => a

namespace Entry

/-- An accepted request is a call for its step. -/
theorem callsFor_of_accepts (h : entry.accepts name = true) : entry.callsFor name = true := by
  rcases entry with ⟨_ | _ | _, _, _ | _⟩ | _ | _ | _ | _
  · cases h
  · exact h
  all_goals cases h

/-- The entries with an answer are the accepted requests. -/
theorem isSome_answerTo? (name : String) (entry : Entry) :
    (entry.answerTo? name).isSome = entry.accepts name := by
  rcases entry with ⟨step | _ | _, _, _ | _⟩ | _ | _ | _ | _
  case exchanged.mutation.ok => by_cases hname : step = name <;> simp [answerTo?, accepts, hname]
  all_goals rfl

end Entry

/-- What is no answer to the request of the step changes nothing. -/
theorem absorb_of_not_accepts (f : Value → α → α) (h : entry.accepts name = false) (a : α) :
    absorb name f a entry = a := by
  rw [← Entry.isSome_answerTo?, Option.isSome_eq_false_iff, Option.isNone_iff_eq_none] at h
  rw [absorb, h]

@[simp] theorem absorb_sent (f : Value → α → α) (a : α) (step : Step M) (request : RemoteRequest)
    (response : Value) :
    absorb name f a (sent step request (.ok response)) =
      if step.name = name then f response a else a := by
  rw [absorb, sent, Entry.answerTo?]
  split_ifs <;> rfl

/-- Nothing but answers counts. -/
theorem onlyAnswers_absorb (name : String) (f : Value → α → α) : OnlyAnswers (absorb name f) where
  other entry h _ := by cases entry <;> first | rfl | cases h
  fault purpose _ _ _ := by cases purpose <;> rfl

@[simp] theorem absorb_looked (f : Value → α → α) (a : α) (step : Step M) (s : Stabilization)
    (answer : Answer) : absorb name f a (looked step s answer) = a := rfl

namespace Journal

/-- The answers of a journal are those by which it brings something up to date. -/
theorem foldl_absorb (name : String) (f : Value → α → α) (j : Journal) (a : α) :
    j.foldl (absorb name f) a = (j.answersTo name).foldl (fun a response => f response a) a := by
  rw [answersTo, List.foldl_filterMap]
  congr 1
  funext a entry
  rw [absorb]
  cases entry.answerTo? name <;> rfl

/-- What depends on the answers to one step and on other things after that is brought up to date by
the one and then by the others, if the answers come first. -/
theorem foldl_absorb_comp (name : String) (f : Value → α → α) (second : α → Entry → α) {j : Journal}
    (h : Throughout (fun before entry => entry.accepts name = true →
      ∀ other ∈ before, ∀ a, second a other = a) j) (a : α) :
    j.foldl (fun a entry => second (absorb name f a entry) entry) a =
      j.foldl second (j.foldl (absorb name f) a) := by
  refine foldl_comp (h.imp ?_) a
  intro before entry _ hanswered
  cases haccepts : entry.accepts name with
  | false => exact .inl (absorb_of_not_accepts f haccepts)
  | true => exact .inr (hanswered haccepts)

/-- There are as many answers as accepted requests. -/
theorem length_answersTo (name : String) (j : Journal) :
    (j.answersTo name).length = j.countP (·.accepts name) := by
  simp only [answersTo, List.length_filterMap_eq_countP, Entry.isSome_answerTo?]

/-- The answer to an accepted request is one of the answers. -/
theorem mem_answersTo {step : Step M} {request : RemoteRequest} {response : Value} {j : Journal}
    (h : sent step request (.ok response) ∈ j) : response ∈ j.answersTo step.name :=
  List.mem_filterMap.mpr ⟨_, h, if_pos rfl⟩

end Journal

namespace Run

variable {run : Run M} {n : Nat} {steps : List (Step M)} {r : ProgressRecord M} {past : Journal}

/-- The request of a step has one answer at most. -/
theorem length_answersTo_le_one (run : Run M) (hkeeps : ∀ step ∈ run.chain.steps, step.KeepsMarks)
    (limit : Nat) (name : String) : ((run.journal limit).answersTo name).length ≤ 1 := by
  rw [Journal.length_answersTo]
  refine Nat.le_trans (List.countP_mono_left ?_) (run.countP_concludes_le_one hkeeps limit name)
  intro entry _ haccepts
  rcases entry with ⟨_ | _ | _, _, _ | _⟩ | _ | _ | _ | _
  · cases haccepts
  · exact haccepts
  all_goals cases haccepts

/-- The request of a step has one answer or none. -/
theorem exists_answersTo_eq_toList (run : Run M)
    (hkeeps : ∀ step ∈ run.chain.steps, step.KeepsMarks) (limit : Nat) (name : String) :
    ∃ response : Option Value, (run.journal limit).answersTo name = response.toList := by
  have hlength := run.length_answersTo_le_one hkeeps limit name
  match hanswers : (run.journal limit).answersTo name with
  | [] => exact ⟨none, rfl⟩
  | [response] => exact ⟨some response, rfl⟩
  | _ :: _ :: _ => simp [hanswers] at hlength

/-- A run over a chain that reports its model ends with the model of the last record. -/
theorem Ends.exists_arrives_of_model {model : Option M} {journal : Journal}
    (hterminal : run.chain.config.terminal = .model)
    (hends : run.Ends n (.ok (.success model)) journal) :
    ∃ r, run.Arrives n [] r journal ∧ r.model = model := by
  generalize hresult : (.ok (.success model) : Except Defect (Outcome M)) = result at hends
  cases hends with
  | @finished r _ harrives =>
    rw [report, hterminal] at hresult
    exact ⟨r, harrives, (Outcome.success.inj (Except.ok.inj hresult)).symm⟩
  | stopped _ _ hrun =>
    obtain ⟨gained, rfl, hvisited⟩ := visited_of_run hrun
    exact absurd (Except.ok.inj hresult).symm (hvisited.ne_success model)
  | broke => cases hresult

section Order

variable (hnames : run.chain.NamesApart) (hkeeps : ∀ step ∈ run.chain.steps, step.KeepsMarks)
  (hstart : run.start = .empty) {earlier : Step M} (hverdict : run.Verdict earlier true)
  (hsuppress : ∀ fault target, earlier.suppress fault target = false)
include hnames hkeeps hstart hverdict hsuppress

/-- When a run succeeds, a step that always applies and lives with no fault has one answer. -/
theorem Ends.exists_answersTo_eq (hearlier : earlier ∈ run.chain.steps) {limit : Nat}
    {model : Option M} (hends : run.Ends n (.ok (.success model)) (run.journal limit)) :
    ∃ response, (run.journal limit).answersTo earlier.name = [response] := by
  have hcompletes := hends.completes_of_success hnames hkeeps hstart hearlier hverdict
  obtain ⟨request, response, hsent⟩ := hcompletes.sent hsuppress
  obtain ⟨response?, htoList⟩ := run.exists_answersTo_eq_toList hkeeps limit earlier.name
  have hmem := Journal.mem_answersTo hsent
  rw [htoList, Option.mem_toList] at hmem
  exact ⟨response, by rw [htoList, hmem, Option.toList_some]⟩

variable {later : Step M} {front back : List (Step M)}
  (hsplit : run.chain.steps = front ++ later :: back) (hfront : earlier ∈ front)
include hsplit hfront

/-- Before a step has an answer, the steps before it that always apply have theirs. -/
theorem Arrives.throughout_settles (harrives : run.Arrives n steps r past) :
    Journal.Throughout (fun before entry => entry.accepts later.name = true →
      ∃ other ∈ before, other.settles earlier.name = true) past := by
  refine harrives.throughout ?_
  intro n step steps r past result gained harrives _ hvisited before entry after hentry haccepts
  have hmade := hvisited.calls (by simp [hentry])
    (Entry.isCall_of_callsFor (Entry.callsFor_of_accepts haccepts))
  have hname := Entry.name_eq_of_callsFor hmade.callsFor (Entry.callsFor_of_accepts haccepts)
  obtain rfl := hnames.eq_of_name_eq harrives.mem (by simp [hsplit]) hname
  obtain ⟨before', hbefore⟩ := harrives.exists_front
  obtain rfl := hnames.front_eq hsplit hbefore
  have hdone := harrives.isDone_of_mem_front hkeeps hverdict hbefore hfront
  have hcompletes := harrives.completes_of_isDone hnames hkeeps hstart (by simp [hsplit, hfront])
    hdone
  obtain ⟨request, response, hsent⟩ := hcompletes.sent hsuppress
  exact ⟨_, List.mem_append_left before hsent, decide_eq_true rfl⟩

/-- A step that always applies and lives with no fault has its answer before the steps behind it
have theirs. -/
theorem throughout_answered (limit : Nat) :
    Journal.Throughout (fun before entry => entry.accepts earlier.name = true →
      ∀ other ∈ before, other.accepts later.name = false) (run.journal limit) := by
  refine throughout_journal ?_ limit
  intro n step steps r past result gained harrives htakes hvisited before entry after hentry
    haccepts other hother
  by_contra hlater
  rw [Bool.not_eq_false] at hlater
  obtain ⟨⟨hname, hnew⟩, _⟩ := hvisited.throughout_once earlier.name before entry after hentry
    (Entry.sends_of_accepts haccepts)
  rcases List.mem_append.mp hother with hpast | hbefore
  · obtain ⟨before', after', rfl⟩ := List.append_of_mem hpast
    obtain ⟨settled, hmem, hsettles⟩ := harrives.throughout_settles hnames hkeeps hstart hverdict
      hsuppress hsplit hfront before' other after' rfl hlater
    have hspent := harrives.isSpent hkeeps (.inl ⟨settled, by simp [hmem], hsettles⟩)
    rw [takesUp_iff] at htakes
    rw [← hname, ProgressRecord.isSpent, hnew, htakes.1] at hspent
    cases hspent
  · have hmade := hvisited.calls (by simp [hentry, hbefore])
      (Entry.isCall_of_callsFor (Entry.callsFor_of_accepts hlater))
    have hsame := Entry.name_eq_of_callsFor hmade.callsFor (Entry.callsFor_of_accepts hlater)
    exact hnames.name_ne hsplit (.inl hfront) (hname.symm.trans hsame)

end Order

end Run

namespace Family

variable {f : Family M} {remote : Remote} {request : HandlerRequest M} {limit : Nat}

/-- The request ends with success within so many invocations, and this is the model reported. -/
def Reports (f : Family M) (remote : Remote) (request : HandlerRequest M) (limit : Nat)
    (model : Option M) : Prop :=
  ∃ invocation ∈ f.invocations remote request limit request.progress [],
    invocation.response = .ok (.ofOutcome (.success model))

/-- An outcome that is reported as a success is one. -/
theorem eq_success_of_ofOutcome {outcome : Outcome M} {model : Option M}
    (h : HandlerResponse.ofOutcome outcome = .ofOutcome (.success model)) :
    outcome = .success model := by
  cases outcome with
  | success => exact congrArg Outcome.success (HandlerResponse.mk.inj h).2.1
  | failed => cases (HandlerResponse.mk.inj h).1
  | inProgress => cases (HandlerResponse.mk.inj h).1

/-- The run that a request follows to a model ends with it. -/
theorem Follows.exists_ends_of_reports {run : Run M} (h : f.Follows remote request limit run)
    {model : Option M} (hreports : f.Reports remote request limit model) :
    ∃ n, run.Ends n (.ok (.success model)) (run.journal limit) := by
  obtain ⟨invocation, hinvocation, hresponse⟩ := hreports
  rw [h] at hinvocation
  obtain ⟨report, hreport, rfl⟩ := List.mem_map.mp hinvocation
  refine Run.ends_of_success hreport ?_
  cases hresult : report.result with
  | error => simp [hresult, Except.map] at hresponse
  | ok outcome =>
    rw [hresult] at hresponse
    rw [eq_success_of_ofOutcome (Except.ok.inj hresponse)]

/-- A request without progress that reports a model follows a run that ends with it. -/
theorem Reports.exists_run {desired : M} {model : Option M}
    (h : f.Reports remote request limit model) (hlist : request.operation ≠ .list)
    (hdesired : request.desired = some desired) (hprogress : request.progress = none) :
    ∃ run n, f.CarriesOut request.operation ⟨desired, request.previous⟩ run ∧
      f.journal remote request limit = run.journal limit ∧
      run.Ends n (.ok (.success model)) (run.journal limit) := by
  rcases refused_or_exists_run hlist hdesired hprogress remote limit with
    hrefused | ⟨run, hrun, -, hfollows⟩
  · obtain ⟨invocation, hinvocation, hresponse⟩ := h
    obtain ⟨message, rfl⟩ := hrefused invocation hinvocation
    cases eq_success_of_ofOutcome (Except.ok.inj hresponse)
  · obtain ⟨n, hends⟩ := hfollows.exists_ends_of_reports h
    exact ⟨run, n, hrun, hfollows.journal_eq, hends⟩

/-- A request without progress that succeeds reports a model, or that there is none. -/
theorem Succeeds.exists_reports {desired : M} (h : f.Succeeds remote request limit)
    (hlist : request.operation ≠ .list) (hdesired : request.desired = some desired)
    (hprogress : request.progress = none) : ∃ model, f.Reports remote request limit model := by
  obtain ⟨invocation, hinvocation, hsuccess⟩ := h
  rcases refused_or_exists_run hlist hdesired hprogress remote limit with
    hrefused | ⟨run, _, -, hfollows⟩
  · obtain ⟨message, rfl⟩ := hrefused invocation hinvocation
    cases hsuccess
  · have hreport := hinvocation
    rw [hfollows] at hreport
    obtain ⟨report, _, rfl⟩ := List.mem_map.mp hreport
    obtain ⟨model, hresult⟩ := exists_success_of_isSuccess hsuccess
    exact ⟨model, _, hinvocation, by rw [hresult]; rfl⟩

end Family

end Lifecycle
