import Lifecycle.Proofs.Calls
import Lifecycle.Proofs.Marks
import Mathlib.Data.List.Nodup

/-!
# What the marks of a step stand for

In a run from the empty record the marks of a step are set for good reasons only:
the first one when the journal has its accepted request (`Arrives.sent_of_isInvoked`),
the second one when the journal has its cool-down (`Arrives.suspended_of_isCooled`),
the last one when a visit of the run has completed the step
(`Arrives.completes_of_isDone`). This takes names that keep the marks of different
steps apart.
-/

namespace Lifecycle

open Json ProgressRecord

variable {M : Type}

/-- The names of the steps keep their marks apart. -/
structure Chain.NamesApart (c : Chain M) : Prop where
  /-- No two steps share a name. -/
  distinct : (c.steps.map (·.name)).Nodup
  /-- No step has the mark of a cool-down as its name. -/
  cooled : ∀ a ∈ c.steps, ∀ b ∈ c.steps, a.name ≠ cooledKey b.name
  /-- No step has the mark of completion as its name. -/
  done : ∀ a ∈ c.steps, ∀ b ∈ c.steps, a.name ≠ doneKey b.name

namespace Chain

variable {c : Chain M} {a b : Step M}

/-- Steps are known by their names. -/
theorem NamesApart.eq_of_name_eq (h : c.NamesApart) (ha : a ∈ c.steps) (hb : b ∈ c.steps)
    (hname : a.name = b.name) : a = b :=
  List.inj_on_of_nodup_map h.distinct ha hb hname

/-- The names of some of the steps keep their marks apart when those of all steps do. -/
theorem NamesApart.of_sublist {names : List String} (h : (c.steps.map (·.name)).Sublist names)
    (hdistinct : names.Nodup) (hcooled : ∀ a ∈ names, ∀ b ∈ names, a ≠ cooledKey b)
    (hdone : ∀ a ∈ names, ∀ b ∈ names, a ≠ doneKey b) : c.NamesApart := by
  have hnames : ∀ step ∈ c.steps, step.name ∈ names :=
    fun step hstep => h.subset (List.mem_map_of_mem hstep)
  exact ⟨h.nodup hdistinct, fun a ha b hb => hcooled _ (hnames a ha) _ (hnames b hb),
    fun a ha b hb => hdone _ (hnames a ha) _ (hnames b hb)⟩

/-- The mark that a request is accepted is none of another step. -/
theorem NamesApart.invoked_ne (h : c.NamesApart) (ha : a ∈ c.steps) (hb : b ∈ c.steps)
    (hne : a.name ≠ b.name) :
    a.name ≠ b.name ∧ a.name ≠ cooledKey b.name ∧ a.name ≠ doneKey b.name :=
  ⟨hne, h.cooled a ha b hb, h.done a ha b hb⟩

/-- The mark that the cool-down is served is none of another step. -/
theorem NamesApart.cooled_ne (h : c.NamesApart) (ha : a ∈ c.steps) (hb : b ∈ c.steps)
    (hne : a.name ≠ b.name) :
    cooledKey a.name ≠ b.name ∧ cooledKey a.name ≠ cooledKey b.name ∧
      cooledKey a.name ≠ doneKey b.name := by
  refine ⟨?_, ?_, (doneKey_ne_cooledKey _ _).symm⟩
  · intro heq
    exact h.cooled b hb a ha heq.symm
  · intro heq
    exact hne (cooledKey_inj.mp heq)

/-- The mark of completion is none of another step. -/
theorem NamesApart.done_ne (h : c.NamesApart) (ha : a ∈ c.steps) (hb : b ∈ c.steps)
    (hne : a.name ≠ b.name) :
    doneKey a.name ≠ b.name ∧ doneKey a.name ≠ cooledKey b.name ∧
      doneKey a.name ≠ doneKey b.name := by
  refine ⟨?_, doneKey_ne_cooledKey _ _, ?_⟩
  · intro heq
    exact h.done b hb a ha heq.symm
  · intro heq
    exact hne (doneKey_inj.mp heq)

variable {faults : FaultTable} {config : ChainConfig} {remote : Remote} {target : Target M}
  {step : Step M} {r r' : ProgressRecord M} {past gained : Journal}

/-- The accepted request of a step is among the entries, if it was not accepted before. -/
theorem Accepted.sent (h : Accepted faults config remote target step r past r' gained) :
    r.isInvoked step.name = true ∨
      ∃ request response, sent step request (.ok response) ∈ gained := by
  cases h with
  | earlier hinvoked => exact .inl hinvoked
  | now _ hissued =>
    cases hissued with
    | @accepted request response => exact .inr ⟨request, response, by simp⟩

/-- A visit marks a request as accepted only when it is. -/
theorem Visited.sent_of_isInvoked
    {result : Except Defect (Except (Outcome M) (ProgressRecord M))}
    (h : Visited faults config remote target step r past result gained)
    (hleft : recordLeft? result = some r')
    (hinvoked : r'.isInvoked step.name = true) :
    r.isInvoked step.name = true ∨
      ∃ request response, sent step request (.ok response) ∈ gained := by
  have hlater : ∀ {r₁ : ProgressRecord M} {first rest : Journal},
      Accepted faults config remote target step r past r₁ first → r.isInvoked step.name = true ∨
        ∃ request response, sent step request (.ok response) ∈ first ++ rest := by
    intro r₁ first rest haccepted
    refine haccepted.sent.imp_right ?_
    rintro ⟨request, response, hsent⟩
    exact ⟨request, response, List.mem_append_left rest hsent⟩
  cases h with
  | unmade => simp [recordLeft?] at hleft
  | halted _ hissued =>
    left
    rw [← hinvoked]
    exact (congrFun (hissued.flag_eq hleft) step.name).symm
  | tolerated =>
    obtain rfl := Option.some.inj hleft
    left
    rw [← hinvoked]
    exact (flag_mark_ne r (doneKey_ne_self step.name)).symm
  | unseen => simp [recordLeft?] at hleft
  | unstable haccepted => exact hlater haccepted
  | shown haccepted =>
    rw [List.append_assoc]
    exact hlater haccepted

/-- A visit in which the request of the step is accepted marks it as accepted. -/
theorem Visited.isInvoked_of_sent {request : RemoteRequest} {response : Value}
    {result : Except Defect (Except (Outcome M) (ProgressRecord M))}
    (h : Visited faults config remote target step r past result gained) (hkeeps : step.KeepsMarks)
    (hleft : recordLeft? result = some r') (hsent : sent step request (.ok response) ∈ gained) :
    r'.isInvoked step.name = true := by
  cases h with
  | unmade => cases hleft
  | halted _ hissued => cases (hissued.eq_accepted hsent).2
  | tolerated _ hissued => cases (hissued.eq_accepted hsent).2
  | unseen => cases hleft
  | unstable haccepted hstabilized =>
    have hflag := (hstabilized.flag_eq_of_suspended hleft).trans (haccepted.flag_eq hkeeps)
    exact (congrFun hflag _).trans (flag_mark_self r _)
  | @shown _ r₂ _ result _ _ _ haccepted hstabilized hcompleted =>
    have hflag := hstabilized.flag_eq.trans (haccepted.flag_eq hkeeps)
    have hinvoked : r₂.flag step.name = true := (congrFun hflag _).trans (flag_mark_self r _)
    cases result with
    | error outcome =>
      have hcooled := hcompleted.flag_eq_of_suspended hkeeps hleft
      exact (congrFun hcooled _).trans (flag_mark_of_flag hinvoked _)
    | ok r'' =>
      obtain rfl := Option.some.inj hleft
      exact (congrFun (hcompleted.flag_eq hkeeps) _).trans (flag_mark_of_flag hinvoked _)

/-- A visit that suspends the operation does not mark the step as complete. -/
theorem Visited.isDone_eq_of_suspended {outcome : Outcome M}
    (h : Visited faults config remote target step r past (.ok (.error outcome)) gained)
    (hkeeps : step.KeepsMarks) (hleft : outcome.progress? = some r') :
    r'.isDone step.name = r.isDone step.name := by
  have hinvoked : (r.markInvoked step.name).isDone step.name = r.isDone step.name :=
    flag_mark_ne r (doneKey_ne_self step.name).symm
  rcases h.marks_of_suspended hkeeps hleft with hflag | hflag | hflag
  · exact congrFun hflag _
  · exact (congrFun hflag _).trans hinvoked
  · refine (congrFun hflag _).trans (Eq.trans ?_ hinvoked)
    exact flag_mark_ne _ (doneKey_ne_cooledKey step.name step.name).symm

/-- A visit marks the cool-down as served only when it begins the one that the step asks for. -/
theorem Visited.suspended_of_isCooled {delay : UInt64}
    {result : Except Defect (Except (Outcome M) (ProgressRecord M))}
    (hasks : ∀ observed r, (step.onComplete observed r).1 = .coolDown delay)
    (h : Visited faults config remote target step r past result gained)
    (hkeeps : step.KeepsMarks) (hleft : recordLeft? result = some r')
    (hcooled : r'.isCooled step.name = true) :
    r.isCooled step.name = true ∨ .suspended step.name .coolDown delay ∈ gained := by
  have hinvoked : (r.markInvoked step.name).isCooled step.name = r.isCooled step.name :=
    flag_mark_ne r (cooledKey_ne_self step.name).symm
  have hdone : ∀ r : ProgressRecord M,
      (r.markDone step.name).isCooled step.name = r.isCooled step.name :=
    fun r => flag_mark_ne r (doneKey_ne_cooledKey step.name step.name)
  have hold : r'.flag (cooledKey step.name) = r.isCooled step.name →
      r.isCooled step.name = true ∨ .suspended step.name .coolDown delay ∈ gained :=
    fun heq => .inl (heq.symm.trans hcooled)
  rcases result with defect | outcome | r''
  · cases hleft
  · cases h with
    | halted _ hissued => exact hold (congrFun (hissued.flag_eq hleft) _)
    | unstable haccepted hstabilized =>
      have hflag := (hstabilized.flag_eq_of_suspended hleft).trans (haccepted.flag_eq hkeeps)
      exact hold ((congrFun hflag _).trans hinvoked)
    | @shown _ r₂ observed _ _ _ _ _ _ hcompleted =>
      cases hcompleted with
      | cooling hcompletion =>
        have hdelay := hasks observed r₂
        rw [hcompletion] at hdelay
        exact .inr (by simp [Completion.coolDown.inj hdelay])
  · obtain rfl := Option.some.inj hleft
    rcases h.marks_of_completed hkeeps with hflag | hflag
    · exact hold ((congrFun hflag _).trans (hdone r))
    · exact hold ((congrFun hflag _).trans ((hdone _).trans hinvoked))

/-- Whether the cool-down is served is the same when the effect shows as before the visit. -/
theorem Stabilized.isCooled_eq {r₁ : ProgressRecord M} {observed : Option Value} {first : Journal}
    (hkeeps : step.KeepsMarks)
    (haccepted : Accepted faults config remote target step r past r₁ first)
    (h : Stabilized faults config remote target step r₁ (past ++ first) (.ok (.ok (observed, r')))
      gained) : r'.isCooled step.name = r.isCooled step.name :=
  (congrFun (h.flag_eq.trans (haccepted.flag_eq hkeeps)) _).trans
    (flag_mark_ne r (cooledKey_ne_self step.name).symm)

/-- A step that asks for a cool-down is complete only when the cool-down is served. -/
theorem Completed.isCooled {delay : UInt64} {observed : Option Value}
    (hasks : ∀ observed r, (step.onComplete observed r).1 = .coolDown delay)
    (hkeeps : step.KeepsMarks) (h : Completed step observed r (.ok r') gained) :
    r.isCooled step.name = true := by
  cases h with
  | @advanced completion r₁ hcompletion hserved =>
    have hdelay := hasks observed r
    rw [hcompletion] at hdelay
    have hcooled : r₁.isCooled step.name = true := by
      refine hserved.resolve_left fun hadvance => ?_
      cases hdelay.symm.trans hadvance
    rwa [ProgressRecord.isCooled, flag_congr (hkeeps.flags_completed hcompletion)] at hcooled

/-- A visit completes a step that asks for a cool-down only when the cool-down is served. -/
theorem Visited.isCooled_of_completed {delay : UInt64}
    (hasks : ∀ observed r, (step.onComplete observed r).1 = .coolDown delay)
    (hsuppress : ∀ fault target, step.suppress fault target = false)
    (h : Visited faults config remote target step r past (.ok (.ok r')) gained)
    (hkeeps : step.KeepsMarks) : r.isCooled step.name = true := by
  cases h with
  | tolerated _ hissued =>
    cases hissued with
    | tolerated _ _ hlives => cases (hsuppress _ _).symm.trans hlives
  | shown haccepted hstabilized hcompleted =>
    exact (hstabilized.isCooled_eq hkeeps haccepted).symm.trans (hcompleted.isCooled hasks hkeeps)

/-- A visit that completes a step marks it as complete. -/
theorem Visited.isDone_of_completed
    (h : Visited faults config remote target step r past (.ok (.ok r')) gained)
    (hkeeps : step.KeepsMarks) : r'.isDone step.name = true := by
  rcases h.marks_of_completed hkeeps with hflag | hflag
  · exact (congrFun hflag _).trans (flag_mark_self _ _)
  · exact (congrFun hflag _).trans (flag_mark_self _ _)

/-- A walk that suspends the operation leaves each step marked as complete that was so before, or
that it completes. -/
theorem Walked.isDone_of_suspended {steps : List (Step M)} {delay : UInt64} {name : String}
    (hkeeps : ∀ step ∈ steps, step.KeepsMarks)
    (h : Walked faults config remote target steps r past (.ok (.inProgress delay r')) gained)
    (hdone : r.isDone name = true ∨ name ∈ gained.finished) : r'.isDone name = true := by
  generalize hresult : (.ok (.inProgress delay r') : Except Defect (Outcome M)) = result at h
  induction h with
  | finished =>
    rw [report] at hresult
    cases hterminal : config.terminal <;> simp [hterminal] at hresult
  | passedOver _ _ ih => exact ih (List.forall_mem_cons.mp hkeeps).2 hdone hresult
  | completed _ hvisit _ ih =>
    obtain ⟨hstep, hsteps⟩ := List.forall_mem_cons.mp hkeeps
    have hvisited := visited_of_run_append hvisit
    refine ih hsteps ?_ hresult
    rw [Journal.finished_append, hvisited.finished, List.singleton_append, List.mem_cons] at hdone
    rcases hdone with hdone | rfl | hlater
    · exact .inl ((hvisited.marks hstep rfl).kept _ hdone)
    · exact .inl (hvisited.isDone_of_completed hstep)
    · exact .inr hlater
  | stopped _ hvisit =>
    obtain rfl := Except.ok.inj hresult
    have hvisited := visited_of_run_append hvisit
    rw [hvisited.finished, or_iff_left List.not_mem_nil] at hdone
    exact (hvisited.marks (List.forall_mem_cons.mp hkeeps).1 rfl).kept _ hdone
  | broke => cases hresult

end Chain

open Chain

namespace Run

/-- A visit of the run has completed a step, and a journal has what the run did up to the end of
this visit. -/
inductive Completes (run : Run M) (step : Step M) : Journal → Prop
  /-- The request met a fault that the step lives with. -/
  | tolerated {n : Nat} {steps : List (Step M)} {r : ProgressRecord M}
      {before gained after : Journal} (harrives : run.Arrives n (step :: steps) r before)
      (htakes : takesUp (run.targets n) step r = true)
      (hissued : Issued run.faults run.chain.config run.remote (run.targets n) step r before
        (.ok .tolerated) gained) :
      Completes run step (before ++ gained ++ after)
  /-- The request was accepted, in this visit or before it. Then the effect showed in this visit, if
  there was one to wait for, and the step was completed. -/
  | carriedOut {n : Nat} {steps : List (Step M)} {r r₁ r₂ r₃ : ProgressRecord M}
      {request : RemoteRequest} {response : Value} {observed : Option Value}
      {before first second third after : Journal}
      (harrives : run.Arrives n (step :: steps) r before)
      (htakes : takesUp (run.targets n) step r = true)
      (haccepted : Accepted run.faults run.chain.config run.remote (run.targets n) step r before r₁
        first)
      (hsent : sent step request (.ok response) ∈ before ++ first)
      (hstabilized : Stabilized run.faults run.chain.config run.remote (run.targets n) step r₁
        (before ++ first) (.ok (.ok (observed, r₂))) second)
      (hcompleted : Completed step observed r₂ (.ok r₃) third) :
      Completes run step (before ++ first ++ second ++ third ++ after)

variable {run : Run M} {n : Nat} {step : Step M} {steps : List (Step M)} {r : ProgressRecord M}
  {past : Journal}

/-- A step that is complete stays so when the journal goes on. -/
theorem Completes.append (h : run.Completes step past) (gained : Journal) :
    run.Completes step (past ++ gained) := by
  cases h with
  | tolerated harrives htakes hissued =>
    rw [List.append_assoc]
    exact .tolerated harrives htakes hissued
  | carriedOut harrives htakes haccepted hsent hstabilized hcompleted =>
    rw [List.append_assoc]
    exact .carriedOut harrives htakes haccepted hsent hstabilized hcompleted

/-- A step is complete only when its request was accepted or met a fault that it lives with. -/
theorem Completes.sent_or_tolerated (h : run.Completes step past) :
    (∃ request response, sent step request (.ok response) ∈ past) ∨
      ∃ request fault n, sent step request (.error fault) ∈ past ∧
        step.suppress (run.faults.classify fault) (run.targets n) = true := by
  cases h with
  | tolerated _ _ hissued =>
    cases hissued with
    | @tolerated request fault _ _ hlives => exact .inr ⟨request, fault, _, by simp, hlives⟩
  | @carriedOut _ _ _ _ _ _ request response _ _ _ _ _ _ _ _ _ hsent =>
    refine .inl ⟨request, response, ?_⟩
    exact List.mem_append_left _ (List.mem_append_left _ (List.mem_append_left _ hsent))

/-- A step that is complete had its request sent. -/
theorem Completes.exists_sent (h : run.Completes step past) :
    ∃ request answer, sent step request answer ∈ past := by
  rcases h.sent_or_tolerated with ⟨request, response, hsent⟩ | ⟨request, fault, _, hsent, _⟩
  · exact ⟨request, .ok response, hsent⟩
  · exact ⟨request, .error fault, hsent⟩

/-- A step that lives with no fault is complete only when its request was accepted. -/
theorem Completes.sent (hsuppress : ∀ fault target, step.suppress fault target = false)
    (h : run.Completes step past) :
    ∃ request response, sent step request (.ok response) ∈ past := by
  rcases h.sent_or_tolerated with hsent | ⟨_, _, _, _, hlives⟩
  · exact hsent
  · simp [hsuppress] at hlives

/-- A visit of the run that completes a step leaves it complete. -/
theorem completes_of_visited {r' : ProgressRecord M} {gained : Journal}
    (harrives : run.Arrives n (step :: steps) r past)
    (htakes : takesUp (run.targets n) step r = true)
    (hsent : r.isInvoked step.name = true →
      ∃ request response, sent step request (.ok response) ∈ past)
    (hvisited : run.Visits n step r past (.ok (.ok r')) gained) :
    run.Completes step (past ++ gained) := by
  cases hvisited with
  | tolerated _ hissued =>
    have hcompletes : run.Completes step (past ++ gained ++ []) :=
      .tolerated harrives htakes hissued
    rwa [List.append_nil] at hcompletes
  | @shown r₁ r₂ observed result first second third haccepted hstabilized hcompleted =>
    have hrequest : ∃ request response, sent step request (.ok response) ∈ past ++ first := by
      rcases haccepted.sent with hinvoked | ⟨request, response, hnow⟩
      · obtain ⟨request, response, hearlier⟩ := hsent hinvoked
        exact ⟨request, response, List.mem_append_left first hearlier⟩
      · exact ⟨request, response, List.mem_append_right past hnow⟩
    obtain ⟨request, response, hmem⟩ := hrequest
    have hcompletes : run.Completes step (past ++ first ++ second ++ third ++ []) :=
      .carriedOut harrives htakes haccepted hmem hstabilized hcompleted
    simpa using hcompletes

section Marks

variable (hnames : run.chain.NamesApart) (hkeeps : ∀ step ∈ run.chain.steps, step.KeepsMarks)
  (hstart : run.start = .empty) (harrives : run.Arrives n steps r past)
  (hstep : step ∈ run.chain.steps)
include hnames hkeeps hstart harrives hstep

/-- Where a mark is set that only visits to one step set, the journal shows what these visits leave
when they set it. -/
theorem Arrives.of_flag {P : Journal → Prop} {key : String}
    (hown : ∀ other ∈ run.chain.steps, step.name ≠ other.name →
      key ≠ other.name ∧ key ≠ cooledKey other.name ∧ key ≠ doneKey other.name)
    (happend : ∀ past gained, P past → P (past ++ gained))
    (hvisit : ∀ {n steps r r' past result gained}, run.Arrives n (step :: steps) r past →
      takesUp (run.targets n) step r = true → run.Visits n step r past result gained →
      recordLeft? result = some r' → r'.flag key = true → r.flag key = true ∨ P (past ++ gained))
    (hset : r.flag key = true) : P past := by
  refine harrives.invariant (I := fun r past => r.flag key = true → P past) ?_ ?_ ?_ hset
  · intro hset
    rw [flag_seed, hstart, flag_empty] at hset
    cases hset
  · intro n r past ih hset
    rw [flag_seed] at hset
    exact ih hset
  · intro n other steps r r' past result gained harrives htakes hvisited hleft ih hset
    by_cases hname : step.name = other.name
    · obtain rfl := hnames.eq_of_name_eq hstep harrives.mem hname
      exact (hvisit harrives htakes hvisited hleft hset).elim (fun hold => happend _ _ (ih hold)) id
    · have hflag := (hvisited.marks (hkeeps other harrives.mem) hleft).flag_eq
        (hown other harrives.mem hname)
      exact happend _ _ (ih (hflag.symm.trans hset))

/-- A step whose request is marked as accepted has its accepted request in the journal. -/
theorem Arrives.sent_of_isInvoked (hinvoked : r.isInvoked step.name = true) :
    ∃ request response, sent step request (.ok response) ∈ past := by
  refine harrives.of_flag (P := fun past => ∃ request response,
    sent step request (.ok response) ∈ past) hnames hkeeps hstart hstep
    (fun _ hother => hnames.invoked_ne hstep hother) ?_ ?_ hinvoked
  · rintro past gained ⟨request, response, hsent⟩
    exact ⟨request, response, List.mem_append_left gained hsent⟩
  · intro n steps r r' past result gained _ _ hvisited hleft hinvoked
    refine (hvisited.sent_of_isInvoked hleft hinvoked).imp_right ?_
    rintro ⟨request, response, hsent⟩
    exact ⟨request, response, List.mem_append_right past hsent⟩

/-- A step that is marked as complete was completed by a visit of the run. -/
theorem Arrives.completes_of_isDone (hdone : r.isDone step.name = true) :
    run.Completes step past := by
  refine harrives.of_flag hnames hkeeps hstart hstep (fun _ hother => hnames.done_ne hstep hother)
    (fun _ gained hcompletes => hcompletes.append gained) ?_ hdone
  intro n steps r r' past result gained harrives htakes hvisited hleft hdone
  rcases result with defect | outcome | r''
  · cases hleft
  · rw [← isDone, hvisited.isDone_eq_of_suspended (hkeeps step hstep) hleft] at hdone
    exact .inl hdone
  · exact .inr (completes_of_visited harrives htakes
      (harrives.sent_of_isInvoked hnames hkeeps hstart hstep) hvisited)

variable {delay : UInt64} (hasks : ∀ observed r, (step.onComplete observed r).1 = .coolDown delay)
include hasks

/-- A step whose cool-down is marked as served has its cool-down in the journal. -/
theorem Arrives.suspended_of_isCooled (hcooled : r.isCooled step.name = true) :
    .suspended step.name .coolDown delay ∈ past := by
  refine harrives.of_flag hnames hkeeps hstart hstep
    (fun _ hother => hnames.cooled_ne hstep hother)
    (fun _ gained hbegun => List.mem_append_left gained hbegun) ?_ hcooled
  intro n steps r r' past result gained _ _ hvisited hleft hcooled
  exact (hvisited.suspended_of_isCooled hasks (hkeeps step hstep) hleft hcooled).imp_right
    (List.mem_append_right past)

/-- A step that asks for a cool-down is complete only when the journal has its cool-down. -/
theorem Arrives.suspended_of_isDone
    (hsuppress : ∀ fault target, step.suppress fault target = false)
    (hdone : r.isDone step.name = true) : .suspended step.name .coolDown delay ∈ past := by
  refine harrives.of_flag hnames hkeeps hstart hstep (fun _ hother => hnames.done_ne hstep hother)
    (fun _ gained hbegun => List.mem_append_left gained hbegun) ?_ hdone
  intro n steps r r' past result gained harrives _ hvisited hleft hdone
  rcases result with defect | outcome | r''
  · cases hleft
  · rw [← isDone, hvisited.isDone_eq_of_suspended (hkeeps step hstep) hleft] at hdone
    exact .inl hdone
  · have hcooled := hvisited.isCooled_of_completed hasks hsuppress (hkeeps step hstep)
    exact .inr (List.mem_append_left gained
      (harrives.suspended_of_isCooled hnames hkeeps hstart hstep hasks hcooled))

end Marks

end Run

end Lifecycle
