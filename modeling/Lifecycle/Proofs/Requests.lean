import Lifecycle.Proofs.Marks

/-!
# Requests that are not sent again

A request that was accepted, or whose fault the step could live with, leaves a mark
behind (`Visited.isSpent`), no later visit clears the mark, and with the mark set no
visit sends the request. So every request is accepted at most once, however long a
run lasts and whatever the remote service answers.
-/

namespace Lifecycle

open Json ProgressRecord

variable {M : Type}

namespace Entry

/-- Whether an entry is the request of a step. -/
def sends (name : String) : Entry → Bool
  | .exchanged (.mutation step) _ => step = name
  | _ => false

/-- Whether an entry is the request of a step, and the request is accepted. -/
def accepts (name : String) : Entry → Bool
  | .exchanged (.mutation step) ⟨_, .ok _⟩ => step = name
  | _ => false

/-- Whether the request of a step is not to be sent any more after an entry: it is accepted, or
the step lives with the fault that it met. -/
def settles (name : String) : Entry → Bool
  | .tolerated step => step = name
  | entry => entry.accepts name

/-- An accepted request is a request. -/
theorem sends_of_accepts {name : String} {entry : Entry} (h : entry.accepts name = true) :
    entry.sends name = true := by
  rcases entry with ⟨_ | _ | _, _, _ | _⟩ | _ | _ | _ | _
  · cases h
  · exact h
  all_goals cases h

/-- An accepted request is not to be sent any more. -/
theorem settles_of_accepts {name : String} {entry : Entry} (h : entry.accepts name = true) :
    entry.settles name = true := by
  cases entry with
  | exchanged => exact h
  | _ => simp [accepts] at h

/-- A pause is no request. -/
theorem quiet_of_isPause {name : String} {entry : Entry} (h : entry.isPause = true) :
    entry.sends name = false ∧ entry.settles name = false := by
  cases entry with
  | waited => exact ⟨rfl, rfl⟩
  | suspended => exact ⟨rfl, rfl⟩
  | _ => cases h

end Entry

/-- Whether a mark keeps the request of a step from being sent. -/
def ProgressRecord.isSpent (r : ProgressRecord M) (name : String) : Bool :=
  r.isInvoked name || r.isDone name

namespace Chain

variable {faults : FaultTable} {config : ChainConfig} {remote : Remote} {target : Target M}
  {step : Step M} {r r' : ProgressRecord M} {past gained : Journal} {name : String}

/-- Looking for the effect of a request sends no request. -/
theorem Stabilized.quiet
    {result : Except Defect (Except (Outcome M) (Option Value × ProgressRecord M))}
    (h : Stabilized faults config remote target step r past result gained) :
    ∀ entry ∈ gained, entry.sends name = false ∧ entry.settles name = false := by
  cases h with
  | defect => simp
  | undeclared => simp
  | refused => simp [looked, Entry.sends, Entry.settles, Entry.accepts]
  | stable => simp [looked, Entry.sends, Entry.settles, Entry.accepts]
  | pending _ _ _ hsuspended =>
    rw [List.forall_mem_cons]
    exact ⟨by simp [looked, Entry.sends, Entry.settles, Entry.accepts],
      fun entry hentry => Entry.quiet_of_isPause (hsuspended.isPause entry hentry)⟩

/-- Completing a step sends no request. -/
theorem Completed.quiet {observed : Option Value}
    {result : Except (Outcome M) (ProgressRecord M)}
    (h : Completed step observed r result gained) :
    ∀ entry ∈ gained, entry.sends name = false ∧ entry.settles name = false := by
  cases h <;> simp [Entry.sends, Entry.settles, Entry.accepts]

/-- A stretch of a journal in which the request of a step is sent at most once, and not after it was
settled. -/
theorem throughout_sends {front back : Journal} {entry : Entry} {P : Prop}
    (hfront : ∀ other ∈ front, other.sends name = false ∧ other.settles name = false)
    (hentry : entry.sends name = true → P) (hback : ∀ other ∈ back, other.sends name = false) :
    Journal.Throughout (fun before entry => entry.sends name = true →
      P ∧ ∀ other ∈ before, other.sends name = false ∧ other.settles name = false)
      (front ++ entry :: back) := by
  rw [Journal.throughout_append, Journal.throughout_cons]
  refine ⟨?_, ?_, ?_⟩
  · exact Journal.throughout_of_forall_eq_false fun other hother => (hfront other hother).1
  · intro hsends
    exact ⟨hentry hsends, by simpa using hfront⟩
  · exact Journal.throughout_of_forall_eq_false hback

/-- The request of a step is the only one that is sent with it, and it is sent once. -/
theorem Issued.throughout {result : Except Defect (Issue M)}
    (h : Issued faults config remote target step r past result gained) (name : String) :
    Journal.Throughout (fun before entry => entry.sends name = true →
      step.name = name ∧ ∀ other ∈ before, other.sends name = false ∧ other.settles name = false)
      gained := by
  have hfront : ∀ other ∈ settling step r, other.sends name = false ∧ other.settles name = false :=
    fun _ hother => Entry.quiet_of_isPause (isPause_of_mem_settling hother)
  have hsent : ∀ request answer, (sent step request answer).sends name = true → step.name = name :=
    fun _ _ hsends => of_decide_eq_true hsends
  cases h with
  | defect =>
    exact Journal.throughout_of_forall_eq_false fun other hother => (hfront other hother).1
  | accepted => exact throughout_sends hfront (hsent _ _) (by simp)
  | tolerated => exact throughout_sends hfront (hsent _ _) (by simp [Entry.sends])
  | retried _ _ _ _ hsuspended =>
    refine throughout_sends hfront (hsent _ _) ?_
    intro other hother
    exact (Entry.quiet_of_isPause (hsuspended.isPause other hother)).1
  | refused => exact throughout_sends hfront (hsent _ _) (by simp)

/-- Only the request of the step itself is settled, and not when it ends the pass. -/
theorem Issued.settles {result : Except Defect (Issue M)}
    (h : Issued faults config remote target step r past result gained) {entry : Entry}
    (hentry : entry ∈ gained) (hsettles : entry.settles name = true) :
    step.name = name ∧ ∀ outcome, result ≠ .ok (.halted outcome) := by
  have hwaits : entry ∉ settling step r := by
    intro hwait
    rw [(Entry.quiet_of_isPause (isPause_of_mem_settling hwait)).2] at hsettles
    exact absurd hsettles (by simp)
  cases h with
  | defect => exact absurd hentry hwaits
  | accepted =>
    obtain rfl : entry = _ := by simpa [hwaits] using hentry
    exact ⟨of_decide_eq_true hsettles, by simp⟩
  | tolerated =>
    obtain rfl | rfl : entry = _ ∨ entry = _ := by simpa [hwaits] using hentry
    · exact absurd hsettles (by simp [sent, Entry.settles, Entry.accepts])
    · exact ⟨of_decide_eq_true hsettles, by simp⟩
  | retried _ _ _ _ hsuspended =>
    obtain rfl | hrest : entry = _ ∨ _ := by simpa [hwaits] using hentry
    · exact absurd hsettles (by simp [sent, Entry.settles, Entry.accepts])
    · rw [(Entry.quiet_of_isPause (hsuspended.isPause entry hrest)).2] at hsettles
      exact absurd hsettles (by simp)
  | refused =>
    obtain rfl : entry = _ := by simpa [hwaits] using hentry
    exact absurd hsettles (by simp [sent, Entry.settles, Entry.accepts])

/-- Only the request of the step itself is settled by being accepted. -/
theorem Accepted.eq_of_settles (h : Accepted faults config remote target step r past r' gained)
    {entry : Entry} (hentry : entry ∈ gained) (hsettles : entry.settles name = true) :
    step.name = name := by
  cases h with
  | earlier => simp at hentry
  | now _ hissued => exact (hissued.settles hentry hsettles).1

/-- The entries that accepting a request leaves are those of sending it, if any. -/
theorem Accepted.eq_nil_or_issued
    (h : Accepted faults config remote target step r past r' gained) :
    gained = [] ∨ r.isInvoked step.name = false ∧
      ∃ issued, Issued faults config remote target step r past issued gained := by
  cases h with
  | earlier => exact .inl rfl
  | now hnew hissued => exact .inr ⟨hnew, _, hissued⟩

/-- A visit sends the request of the step, if no mark keeps it from that, and then sends no more. -/
theorem Visited.exists_first {result : Except Defect (Except (Outcome M) (ProgressRecord M))}
    (h : Visited faults config remote target step r past result gained) (name : String) :
    ∃ first rest, gained = first ++ rest ∧ (∀ entry ∈ rest, entry.sends name = false) ∧
      (first = [] ∨ r.isInvoked step.name = false ∧
        ∃ issued, Issued faults config remote target step r past issued first) := by
  cases h with
  | unmade hnew hissued => exact ⟨gained, [], by simp, by simp, .inr ⟨hnew, _, hissued⟩⟩
  | halted hnew hissued => exact ⟨gained, [], by simp, by simp, .inr ⟨hnew, _, hissued⟩⟩
  | tolerated hnew hissued => exact ⟨gained, [], by simp, by simp, .inr ⟨hnew, _, hissued⟩⟩
  | unseen hfirst hstabilized =>
    exact ⟨_, _, rfl, fun entry hentry => (hstabilized.quiet entry hentry).1,
      hfirst.eq_nil_or_issued⟩
  | unstable hfirst hstabilized =>
    exact ⟨_, _, rfl, fun entry hentry => (hstabilized.quiet entry hentry).1,
      hfirst.eq_nil_or_issued⟩
  | shown hfirst hstabilized hcompleted =>
    refine ⟨_, _, List.append_assoc .., ?_, hfirst.eq_nil_or_issued⟩
    intro entry hentry
    rcases List.mem_append.mp hentry with hsecond | hthird
    · exact (hstabilized.quiet entry hsecond).1
    · exact (hcompleted.quiet entry hthird).1

/-- The request of a step is sent in a visit only while no mark keeps it from being sent, and it is
sent once. -/
theorem Visited.throughout_once {result : Except Defect (Except (Outcome M) (ProgressRecord M))}
    (h : Visited faults config remote target step r past result gained) (name : String) :
    Journal.Throughout (fun before entry => entry.sends name = true →
      (step.name = name ∧ r.isInvoked step.name = false) ∧
        ∀ other ∈ before, other.sends name = false ∧ other.settles name = false) gained := by
  obtain ⟨first, rest, rfl, hrest, hfirst⟩ := h.exists_first name
  rw [Journal.throughout_append]
  constructor
  · rcases hfirst with rfl | ⟨hnew, _, hissued⟩
    · exact Journal.throughout_nil
    · refine (hissued.throughout name).imp ?_
      intro before entry _ hsent hsends
      obtain ⟨hname, hbefore⟩ := hsent hsends
      exact ⟨⟨hname, hnew⟩, hbefore⟩
  · exact Journal.throughout_of_forall_eq_false hrest

/-- The request of a step is not sent in a visit after it was settled. -/
theorem Visited.throughout {result : Except Defect (Except (Outcome M) (ProgressRecord M))}
    (h : Visited faults config remote target step r past result gained) (name : String) :
    Journal.Throughout (fun before entry => entry.sends name = true →
      (step.name = name ∧ r.isInvoked step.name = false) ∧
        ∀ other ∈ before, other.settles name = false) gained := by
  refine (h.throughout_once name).imp ?_
  intro before entry _ hsent hsends
  obtain ⟨hnew, hbefore⟩ := hsent hsends
  exact ⟨hnew, fun other hother => (hbefore other hother).2⟩

/-- A visit in which a request is settled leaves a mark that keeps it from being sent. -/
theorem Visited.isSpent {result : Except Defect (Except (Outcome M) (ProgressRecord M))}
    (hkeeps : step.KeepsMarks)
    (h : Visited faults config remote target step r past result gained)
    (hleft : recordLeft? result = some r') {entry : Entry} (hentry : entry ∈ gained)
    (hsettles : entry.settles name = true) : r'.isSpent name = true := by
  have hquiet : ∀ {others : Journal}, (∀ other ∈ others,
      other.sends name = false ∧ other.settles name = false) → entry ∉ others := by
    intro others hothers hmem
    rw [(hothers entry hmem).2] at hsettles
    exact absurd hsettles (by simp)
  rw [ProgressRecord.isSpent, Bool.or_eq_true]
  cases h with
  | unmade => simp [recordLeft?] at hleft
  | halted _ hissued => exact absurd rfl ((hissued.settles hentry hsettles).2 _)
  | tolerated _ hissued =>
    obtain rfl := Option.some.inj hleft
    obtain rfl := (hissued.settles hentry hsettles).1
    exact .inr (flag_mark_self r _)
  | unseen => simp [recordLeft?] at hleft
  | @unstable r₁ _ _ _ haccepted hstabilized =>
    have hfirst := (List.mem_append.mp hentry).resolve_right (hquiet hstabilized.quiet)
    obtain rfl := haccepted.eq_of_settles hfirst hsettles
    have hflag := (hstabilized.flag_eq_of_suspended hleft).trans (haccepted.flag_eq hkeeps)
    exact .inl ((congrFun hflag _).trans (flag_mark_self r _))
  | @shown r₁ r₂ _ result first _ _ haccepted hstabilized hcompleted =>
    have hfirst : entry ∈ first := by
      simpa [hquiet hstabilized.quiet, hquiet hcompleted.quiet] using hentry
    obtain rfl := haccepted.eq_of_settles hfirst hsettles
    have hflag := hstabilized.flag_eq.trans (haccepted.flag_eq hkeeps)
    have hinvoked : r₂.flag step.name = true := (congrFun hflag _).trans (flag_mark_self r _)
    cases result with
    | error outcome =>
      have hcooled := hcompleted.flag_eq_of_suspended hkeeps hleft
      exact .inl ((congrFun hcooled _).trans (flag_mark_of_flag hinvoked _))
    | ok r'' =>
      obtain rfl := Option.some.inj hleft
      have hdone := hcompleted.flag_eq hkeeps
      exact .inl ((congrFun hdone _).trans (flag_mark_of_flag hinvoked _))

end Chain

open Chain

namespace Run

variable {run : Run M} {name : String}

/-- Once a request is settled, a mark keeps it from being sent. -/
theorem Arrives.isSpent (hkeeps : ∀ step ∈ run.chain.steps, step.KeepsMarks) {n : Nat}
    {steps : List (Step M)} {r : ProgressRecord M} {past : Journal}
    (harrives : run.Arrives n steps r past)
    (hspent : (∃ entry ∈ past, entry.settles name = true) ∨ run.start.isSpent name = true) :
    r.isSpent name = true := by
  have hflag : ∀ {r r' : ProgressRecord M}, r'.flag = r.flag →
      r'.isSpent name = r.isSpent name := by
    intro r r' h
    simp only [ProgressRecord.isSpent, isInvoked, isDone, h]
  refine harrives.invariant (I := fun r past => (∃ entry ∈ past, entry.settles name = true) ∨
    run.start.isSpent name = true → r.isSpent name = true) ?_ ?_ ?_ hspent
  · rintro (⟨entry, hentry, _⟩ | hstart)
    · simp at hentry
    · rw [hflag (flag_seed _ _), hstart]
  · intro n r past hspent hsettled
    rw [hflag (flag_seed _ _), hspent hsettled]
  · intro n step steps r r' past result gained harrives _ hvisited hleft ih hsettled
    have hmarks := hvisited.marks (hkeeps step harrives.mem) hleft
    have hkept : r.isSpent name = true → r'.isSpent name = true := by
      rw [ProgressRecord.isSpent, ProgressRecord.isSpent, Bool.or_eq_true, Bool.or_eq_true]
      exact Or.imp (hmarks.kept _) (hmarks.kept _)
    rcases hsettled with ⟨entry, hentry, hsettles⟩ | hstart
    · rcases List.mem_append.mp hentry with hpast | hgained
      · exact hkept (ih (.inl ⟨entry, hpast, hsettles⟩))
      · exact hvisited.isSpent (hkeeps step harrives.mem) hleft hgained hsettles
    · exact hkept (ih (.inr hstart))

/-- The request of a step is accepted at most once in a run, whatever the passes want and whatever
the remote service answers. It is not sent any more after it was accepted or its fault was
tolerated, and never if the first record has the step marked. -/
theorem accepted_at_most_once (run : Run M) (hkeeps : ∀ step ∈ run.chain.steps, step.KeepsMarks)
    (limit : Nat) (name : String) :
    (run.journal limit).countP (·.accepts name) ≤ 1 ∧
      Journal.Throughout (fun before entry => entry.sends name = true →
        ∀ other ∈ before, other.settles name = false) (run.journal limit) ∧
      (run.start.isInvoked name = true ∨ run.start.isDone name = true →
        ∀ entry ∈ run.journal limit, entry.sends name = false) := by
  have hsent : Journal.Throughout (fun before entry => entry.sends name = true →
      (∀ other ∈ before, other.settles name = false) ∧ run.start.isSpent name = false)
      (run.journal limit) := by
    refine throughout_journal ?_ limit
    intro n step steps r past result gained harrives htakes hvisited
    refine (hvisited.throughout name).imp ?_
    intro before entry _ hsent hsends
    obtain ⟨⟨rfl, hnew⟩, hbefore⟩ := hsent hsends
    have hopen : r.isSpent step.name = false := by
      rw [takesUp, Bool.and_eq_true, Bool.not_eq_true'] at htakes
      rw [ProgressRecord.isSpent, hnew, htakes.1, Bool.or_self]
    have hunspent := mt (harrives.isSpent hkeeps) (ne_true_of_eq_false hopen)
    rw [not_or, Bool.not_eq_true] at hunspent
    refine ⟨?_, hunspent.2⟩
    intro other hother
    rcases List.mem_append.mp hother with hpast | hbefore'
    · by_contra hsettles
      exact hunspent.1 ⟨other, hpast, (Bool.not_eq_false _).mp hsettles⟩
    · exact hbefore other hbefore'
  refine ⟨?_, ?_, ?_⟩
  · refine Journal.countP_le_one_of_throughout (hsent.imp ?_)
    intro before entry _ hentry haccepts other hother
    have hsettles := (hentry (Entry.sends_of_accepts haccepts)).1 other hother
    by_contra haccepted
    rw [Entry.settles_of_accepts ((Bool.not_eq_false _).mp haccepted)] at hsettles
    exact absurd hsettles (by simp)
  · exact hsent.imp fun before entry _ hentry hsends => (hentry hsends).1
  · intro hmarked entry hentry
    obtain ⟨before, after, hsplit⟩ := List.append_of_mem hentry
    by_contra hsends
    have hstart := (hsent before entry after hsplit ((Bool.not_eq_false _).mp hsends)).2
    rw [ProgressRecord.isSpent, Bool.or_eq_false_iff] at hstart
    rcases hmarked with hinvoked | hdone
    · simp [hstart.1] at hinvoked
    · simp [hstart.2] at hdone

/-- A run whose only request is turned away at first and accepted after that. -/
def turnedAwayOnce : Run Unit where
  chain :=
    { operation := "create"
      config := { stabilization := .constant 30 60, throttling := .constant 5 60 }
      steps := [{ name := "create", request := fun _ _ => .ok ⟨"Create", .null⟩ }] }
  faults := FaultTable.common
  remote past _ :=
    match past with
    | [] => .error ⟨"Throttling", "Rate exceeded", 400⟩
    | _ :: _ => .ok .null
  targets _ := { desired := () }
  start := .empty

/-- The request that is turned away at first is sent twice and accepted once. -/
theorem accepted_once_of_turnedAwayOnce :
    (∀ step ∈ turnedAwayOnce.chain.steps, step.KeepsMarks) ∧
      (turnedAwayOnce.journal 5).countP (·.sends "create") = 2 ∧
      (turnedAwayOnce.journal 5).countP (·.accepts "create") = 1 ∧
      Journal.Throughout (fun before entry => entry.sends "create" = true →
        ∀ other ∈ before, other.settles "create" = false) (turnedAwayOnce.journal 5) := by
  have hkeeps : ∀ step ∈ turnedAwayOnce.chain.steps, step.KeepsMarks := by
    intro step hstep
    obtain rfl := List.mem_singleton.mp hstep
    exact ⟨fun _ _ => rfl, fun _ _ => rfl⟩
  obtain ⟨hatMost, hsettled, _⟩ := accepted_at_most_once turnedAwayOnce hkeeps 5 "create"
  have hsome : 0 < (turnedAwayOnce.journal 5).countP (·.accepts "create") := by decide +kernel
  exact ⟨hkeeps, by decide +kernel, by omega, hsettled⟩

end Run

end Lifecycle
