import Lifecycle.Proofs.Ordering

/-!
# Cool-downs

A step may ask for a cool-down when the effect of its request shows. The operation is suspended for
it once: no cool-down begins when the mark says that it is served (`Visited.throughout_coolsDown`),
and the mark stays (`Run.Arrives.isCooled`). The pass that is suspended has done nothing for the
steps behind (`Run.PassVisit`). A later pass looks for the effect once more before the step is
complete, however often the effect goes away in between, unless the step lives with the fault that
its request meets: then it has neither a cool-down nor a look (`Run.servesCoolDown`).
-/

namespace Lifecycle

open Json ProgressRecord

variable {M : Type}

/-- Whether an entry says that the operation is suspended for the cool-down of a step. -/
def Entry.coolsDown (name : String) : Entry → Bool
  | .suspended step .coolDown _ => step = name
  | _ => false

/-- Whether a pass is suspended for the cool-down of a step. -/
def Chain.PassReport.coolsDown (name : String) (report : PassReport M) : Bool :=
  report.journal.any (·.coolsDown name)

namespace Chain

variable {faults : FaultTable} {config : ChainConfig} {remote : Remote} {target : Target M}
  {step : Step M} {r r' : ProgressRecord M} {past gained : Journal} {name : String}

/-- There are no more passes with an event than there are events. -/
theorem countP_any_le {p : Entry → Bool} (reports : List (PassReport M)) :
    reports.countP (·.journal.any p) ≤ (journalOf reports).countP p := by
  induction reports with
  | nil => exact Nat.le_refl 0
  | cons report reports ih =>
    rw [List.countP_cons, journalOf, List.flatMap_cons, List.countP_append, ← journalOf]
    split
    · next hany =>
      have hpos := List.countP_pos_iff.mpr (List.any_eq_true.mp hany)
      omega
    · omega

/-- A wait in place is no cool-down. -/
theorem coolsDown_settling {entry : Entry} (h : entry ∈ settling step r) :
    entry.coolsDown name = false := by
  obtain ⟨seconds, _, rfl⟩ := List.mem_map.mp h
  rfl

/-- A suspension for another cause is no cool-down. -/
theorem Suspended.coolsDown {cause : SuspensionCause} {policy : BackoffPolicy} {counter : String}
    {exhausted outcome : Outcome M}
    (h : Suspended step cause policy counter r exhausted outcome gained)
    (hcause : cause ≠ .coolDown) : ∀ entry ∈ gained, entry.coolsDown name = false := by
  cases h with
  | postponed =>
    rw [List.forall_mem_singleton]
    cases cause with
    | coolDown => exact absurd rfl hcause
    | _ => rfl
  | spent => exact List.forall_mem_nil _

/-- No cool-down begins in sending the request. -/
theorem Issued.coolsDown {result : Except Defect (Issue M)}
    (h : Issued faults config remote target step r past result gained) :
    ∀ entry ∈ gained, entry.coolsDown name = false := by
  have hafter : ∀ {rest : Journal}, (∀ entry ∈ rest, entry.coolsDown name = false) →
      ∀ entry ∈ settling step r ++ rest, entry.coolsDown name = false :=
    fun hrest => List.forall_mem_append.mpr ⟨fun _ => coolsDown_settling, hrest⟩
  cases h with
  | defect => exact fun _ => coolsDown_settling
  | accepted => exact hafter (List.forall_mem_singleton.mpr rfl)
  | tolerated => exact hafter (by simp [sent, Entry.coolsDown])
  | retried _ _ _ _ hsuspended =>
    exact hafter (List.forall_mem_cons.mpr ⟨rfl, hsuspended.coolsDown (by decide)⟩)
  | refused => exact hafter (List.forall_mem_singleton.mpr rfl)

/-- No cool-down begins in having the request accepted. -/
theorem Accepted.coolsDown (h : Accepted faults config remote target step r past r' gained) :
    ∀ entry ∈ gained, entry.coolsDown name = false := by
  cases h with
  | earlier => exact List.forall_mem_nil _
  | now _ hissued => exact hissued.coolsDown

/-- No cool-down begins in looking for the effect. -/
theorem Stabilized.coolsDown
    {result : Except Defect (Except (Outcome M) (Option Value × ProgressRecord M))}
    (h : Stabilized faults config remote target step r past result gained) :
    ∀ entry ∈ gained, entry.coolsDown name = false := by
  cases h with
  | defect => exact List.forall_mem_nil _
  | undeclared => exact List.forall_mem_nil _
  | refused => exact List.forall_mem_singleton.mpr rfl
  | stable => exact List.forall_mem_singleton.mpr rfl
  | pending _ _ _ hsuspended => exact List.forall_mem_cons.mpr ⟨rfl, hsuspended.coolsDown (by decide)⟩

/-- A visit in which a cool-down begins finds the effect and suspends the operation for the
cool-down of its own step. -/
theorem Visited.exists_cooling {result : Except Defect (Except (Outcome M) (ProgressRecord M))}
    (h : Visited faults config remote target step r past result gained) {entry : Entry}
    (hentry : entry ∈ gained) (hcools : entry.coolsDown name = true) :
    name = step.name ∧ ∃ r₁ r₂ observed outcome first second third,
      Accepted faults config remote target step r past r₁ first ∧
      Stabilized faults config remote target step r₁ (past ++ first) (.ok (.ok (observed, r₂)))
        second ∧
      Completed step observed r₂ (.error outcome) third ∧
      result = .ok (.error outcome) ∧ gained = first ++ second ++ third := by
  have hnone : ∀ {others : Journal}, (∀ entry ∈ others, entry.coolsDown name = false) →
      entry ∉ others := by
    intro others hothers hmem
    cases (hothers entry hmem).symm.trans hcools
  cases h with
  | unmade _ hissued => exact absurd hentry (hnone hissued.coolsDown)
  | halted _ hissued => exact absurd hentry (hnone hissued.coolsDown)
  | tolerated _ hissued => exact absurd hentry (hnone hissued.coolsDown)
  | unseen haccepted hstabilized =>
    exact absurd hentry (hnone (List.forall_mem_append.mpr
      ⟨haccepted.coolsDown, hstabilized.coolsDown⟩))
  | unstable haccepted hstabilized =>
    exact absurd hentry (hnone (List.forall_mem_append.mpr
      ⟨haccepted.coolsDown, hstabilized.coolsDown⟩))
  | shown haccepted hstabilized hcompleted =>
    have hbefore := hnone (List.forall_mem_append.mpr
      ⟨haccepted.coolsDown, hstabilized.coolsDown⟩)
    have hlast := (List.mem_append.mp hentry).resolve_left hbefore
    cases hcompleted with
    | cooling hcompletion hnew =>
      obtain rfl := List.mem_singleton.mp hlast
      exact ⟨(of_decide_eq_true hcools).symm, _, _, _, _, _, _, _, haccepted, hstabilized,
        .cooling hcompletion hnew, rfl, rfl⟩
    | advanced =>
      obtain rfl := List.mem_singleton.mp hlast
      cases hcools

/-- A cool-down begins where none is served yet. -/
theorem Completed.isCooled_eq_false {observed : Option Value} {outcome : Outcome M}
    (hkeeps : step.KeepsMarks) (h : Completed step observed r (.error outcome) gained) :
    r.isCooled step.name = false := by
  cases h with
  | cooling hcompletion hnew =>
    rwa [ProgressRecord.isCooled, flag_congr (hkeeps.flags_completed hcompletion)] at hnew

/-- In a visit a cool-down begins at most once, and only where none is served yet. -/
theorem Visited.throughout_coolsDown
    {result : Except Defect (Except (Outcome M) (ProgressRecord M))} (hkeeps : step.KeepsMarks)
    (h : Visited faults config remote target step r past result gained) (name : String) :
    Journal.Throughout (fun before entry => entry.coolsDown name = true →
      r.isCooled name = false ∧ ∀ other ∈ before, other.coolsDown name = false) gained := by
  have hnone : ∀ {others : Journal}, (∀ entry ∈ others, entry.coolsDown name = false) →
      Journal.Throughout (fun before entry => entry.coolsDown name = true →
        r.isCooled name = false ∧ ∀ other ∈ before, other.coolsDown name = false) others :=
    fun hothers => Journal.throughout_of_forall_eq_false hothers
  cases h with
  | unmade _ hissued => exact hnone hissued.coolsDown
  | halted _ hissued => exact hnone hissued.coolsDown
  | tolerated _ hissued => exact hnone hissued.coolsDown
  | unseen haccepted hstabilized =>
    exact hnone (List.forall_mem_append.mpr ⟨haccepted.coolsDown, hstabilized.coolsDown⟩)
  | unstable haccepted hstabilized =>
    exact hnone (List.forall_mem_append.mpr ⟨haccepted.coolsDown, hstabilized.coolsDown⟩)
  | @shown _ _ _ _ first second _ haccepted hstabilized hcompleted =>
    have hbefore : ∀ entry ∈ first ++ second, entry.coolsDown name = false :=
      List.forall_mem_append.mpr ⟨haccepted.coolsDown, hstabilized.coolsDown⟩
    refine Journal.throughout_append.mpr ⟨hnone hbefore, ?_⟩
    have hserved := hstabilized.isCooled_eq hkeeps haccepted
    cases hcompleted with
    | cooling hcompletion hnew =>
      refine Journal.throughout_singleton.mpr fun hcools => ?_
      obtain rfl : step.name = name := of_decide_eq_true hcools
      have hopen := (Completed.cooling hcompletion hnew).isCooled_eq_false hkeeps
      rw [List.append_nil]
      exact ⟨hserved.symm.trans hopen, hbefore⟩
    | advanced => exact Journal.throughout_singleton.mpr nofun

end Chain

open Chain

namespace Run

/-- In a pass that goes on from a journal, the visit to a step, with the steps and entries before it
and the entries after it. -/
structure PassVisit (run : Run M) (n : Nat) (past : Journal) (result : Except Defect (Outcome M))
    (front : List (Step M)) (step : Step M) (r : ProgressRecord M)
    (left : Except Defect (Except (Outcome M) (ProgressRecord M))) (before gained after : Journal) :
    Prop where
  /-- The pass gets to the step. -/
  arrives : ∃ back, run.Arrives n (step :: back) r (past ++ before)
  /-- It takes the step up. -/
  takes : takesUp (run.targets n) step r = true
  /-- The visit goes this way. -/
  visits : run.Visits n step r (past ++ before) left gained
  /-- Before the visit the pass does nothing for steps behind. -/
  omits : ∀ name, (∀ other ∈ front, other.name ≠ name) → before.Omits name
  /-- A visit that ends the operation or suspends it ends the pass. -/
  stops : ∀ outcome, left = .ok (.error outcome) → result = .ok outcome ∧ after = []

variable {run : Run M} {n : Nat} {step : Step M} {steps front back : List (Step M)}
  {r : ProgressRecord M} {past gained : Journal} {result : Except Defect (Outcome M)}

/-- A visit that a pass makes right away. -/
theorem Arrives.passVisit {left : Except Defect (Except (Outcome M) (ProgressRecord M))}
    {after : Journal} (harrives : run.Arrives n (step :: steps) r past)
    (htakes : takesUp (run.targets n) step r = true) (hvisits : run.Visits n step r past left gained)
    (hstops : ∀ outcome, left = .ok (.error outcome) → result = .ok outcome ∧ after = []) :
    run.PassVisit n past result [] step r left [] gained after := by
  refine ⟨⟨steps, ?_⟩, htakes, ?_, fun name _ => Journal.omits_nil name, hstops⟩
  · rwa [List.append_nil]
  · rwa [List.append_nil]

/-- What a pass does is done in the visit to some step. -/
theorem Arrives.exists_passVisit (harrives : run.Arrives n steps r past)
    (hwalked : Walked run.faults run.chain.config run.remote (run.targets n) steps r past result
      gained) {entry : Entry} (hentry : entry ∈ gained) :
    ∃ front step back r left before visited after, steps = front ++ step :: back ∧
      gained = before ++ visited ++ after ∧ entry ∈ visited ∧
      run.PassVisit n past result front step r left before visited after := by
  induction hwalked with
  | finished => cases hentry
  | @passedOver other _ _ _ _ _ hover _ ih =>
    obtain ⟨front, step, back, r, left, before, visited, after, rfl, rfl, hmem, hvisit⟩ :=
      ih (.passedOver harrives hover) hentry
    exact ⟨other :: front, step, back, r, left, before, visited, after, rfl, rfl, hmem,
      { hvisit with
        omits := fun name hapart => hvisit.omits name (List.forall_mem_cons.mp hapart).2 }⟩
  | @completed other _ _ _ past first _ _ htakes hrun _ ih =>
    have hvisited := visited_of_run_append hrun
    rcases List.mem_append.mp hentry with hfirst | hrest
    · exact ⟨[], other, _, _, _, [], first, _, rfl, rfl, hfirst,
        harrives.passVisit htakes hvisited nofun⟩
    · obtain ⟨front, step, back, r, left, before, visited, after, rfl, rfl, hmem, hvisit⟩ :=
        ih (.completed harrives htakes hrun) hrest
      refine ⟨other :: front, step, back, r, left, first ++ before, visited, after, rfl, by simp,
        hmem, ?_, hvisit.takes, ?_, ?_, hvisit.stops⟩
      · rw [← List.append_assoc]
        exact hvisit.arrives
      · rw [← List.append_assoc]
        exact hvisit.visits
      · intro name hapart
        obtain ⟨hother, hfront⟩ := List.forall_mem_cons.mp hapart
        exact (hvisited.omits hother).append (hvisit.omits name hfront)
  | @stopped other _ _ _ gained _ htakes hrun =>
    refine ⟨[], other, _, _, _, [], gained, [], rfl, (List.append_nil _).symm, hentry,
      harrives.passVisit htakes (visited_of_run_append hrun) ?_⟩
    intro outcome hleft
    exact ⟨congrArg _ (Except.error.inj (Except.ok.inj hleft)), rfl⟩
  | @broke other _ _ _ gained _ htakes hrun =>
    exact ⟨[], other, _, _, _, [], gained, [], rfl, (List.append_nil _).symm, hentry,
      harrives.passVisit htakes (visited_of_run_append hrun) nofun⟩

/-- Once the cool-down of a step has begun, it is marked as served. -/
theorem Arrives.isCooled (hkeeps : ∀ step ∈ run.chain.steps, step.KeepsMarks) {name : String}
    (harrives : run.Arrives n steps r past) (hcools : ∃ entry ∈ past, entry.coolsDown name = true) :
    r.isCooled name = true := by
  refine harrives.invariant (I := fun r past =>
    (∃ entry ∈ past, entry.coolsDown name = true) → r.isCooled name = true) ?_ ?_ ?_ hcools
  · rintro ⟨_, hnone, _⟩
    cases hnone
  · intro n r past ih hcools
    rw [ProgressRecord.isCooled, flag_seed]
    exact ih hcools
  · rintro n other rest r r' past result gained harrives _ hvisited hleft ih ⟨entry, hentry, hcools⟩
    have hother := hkeeps other harrives.mem
    rcases List.mem_append.mp hentry with hpast | hgained
    · exact (hvisited.marks hother hleft).kept _ (ih ⟨entry, hpast, hcools⟩)
    · obtain ⟨rfl, _, _, _, outcome, _, _, _, -, -, hcompleted, rfl, -⟩ :=
        hvisited.exists_cooling hgained hcools
      exact (congrFun (hcompleted.flag_eq_of_suspended hother hleft) _).trans (flag_mark_self _ _)

/-- The cool-down of a step begins once at most. -/
theorem countP_coolsDown_le_one (run : Run M) (hkeeps : ∀ step ∈ run.chain.steps, step.KeepsMarks)
    (limit : Nat) (name : String) :
    (run.passes limit).countP (·.coolsDown name) ≤ 1 := by
  refine Nat.le_trans (countP_any_le _)
    (Journal.countP_le_one_of_throughout (run.throughout_journal ?_ limit))
  intro n step rest r past result gained harrives _ hvisited
  refine (hvisited.throughout_coolsDown (hkeeps step harrives.mem) name).imp ?_
  intro before entry _ hfirst hcools
  obtain ⟨hopen, hbefore⟩ := hfirst hcools
  refine List.forall_mem_append.mpr ⟨fun other hother => ?_, hbefore⟩
  by_contra hserved
  rw [Bool.not_eq_false] at hserved
  cases hopen.symm.trans (harrives.isCooled hkeeps ⟨other, hother, hserved⟩)

/-- A cool-down begins for a step that a pass takes up and that asks for it. -/
theorem exists_asks_of_coolsDown {limit : Nat} {name : String} {entry : Entry}
    (hentry : entry ∈ run.journal limit) (hcools : entry.coolsDown name = true) :
    ∃ n step back r past, run.Arrives n (step :: back) r past ∧
      takesUp (run.targets n) step r = true ∧ name = step.name ∧
      ∃ observed r delay, (step.onComplete observed r).1 = .coolDown delay := by
  obtain ⟨before, after, hsplit⟩ := List.append_of_mem hentry
  refine run.throughout_journal (Q := fun _ entry => entry.coolsDown name = true →
    ∃ n step back r past, run.Arrives n (step :: back) r past ∧
      takesUp (run.targets n) step r = true ∧ name = step.name ∧
      ∃ observed r delay, (step.onComplete observed r).1 = .coolDown delay) ?_ limit before entry
    after hsplit hcools
  intro n step back r past result gained harrives htakes hvisited before entry after hsplit hcools
  obtain ⟨hname, _, r₂, observed, _, _, _, _, -, -, hcompleted, -, -⟩ :=
    hvisited.exists_cooling (by simp [hsplit]) hcools
  refine ⟨n, step, back, r, past, harrives, htakes, hname, observed, r₂, ?_⟩
  cases hcompleted with
  | cooling hcompletion => exact ⟨_, congrArg Prod.fst hcompletion⟩

section Marks

variable (hnames : run.chain.NamesApart) (hkeeps : ∀ step ∈ run.chain.steps, step.KeepsMarks)
  (hstart : run.start = .empty) (hstep : step ∈ run.chain.steps)
include hnames hkeeps hstart hstep

/-- A step is marked as complete exactly when the journal says that it is. -/
theorem Arrives.isDone_iff (harrives : run.Arrives n steps r past) :
    r.isDone step.name = true ↔ step.name ∈ past.finished := by
  refine harrives.invariant
    (I := fun r past => r.isDone step.name = true ↔ step.name ∈ past.finished) ?_ ?_ ?_
  · rw [ProgressRecord.isDone, flag_seed, hstart, flag_empty]
    exact iff_of_false Bool.false_ne_true List.not_mem_nil
  · intro n r past ih
    rwa [ProgressRecord.isDone, flag_seed]
  · intro n other rest r r' past result gained harrives _ hvisited hleft ih
    have hother := hkeeps other harrives.mem
    rw [Journal.finished_append, List.mem_append, ← ih]
    by_cases hname : step.name = other.name
    · obtain rfl := hnames.eq_of_name_eq hstep harrives.mem hname
      rcases result with defect | outcome | r''
      · cases hleft
      · rw [hvisited.isDone_eq_of_suspended hother hleft, hvisited.finished,
          or_iff_left List.not_mem_nil]
      · obtain rfl := Option.some.inj hleft
        rw [hvisited.finished]
        exact iff_of_true (hvisited.isDone_of_completed hother)
          (.inr (List.mem_singleton_self _))
    · have hflag : r'.isDone step.name = r.isDone step.name :=
        (hvisited.marks hother hleft).flag_eq (hnames.done_ne hstep harrives.mem hname)
      rw [hflag, or_iff_left (hvisited.omits (Ne.symm hname)).2]

end Marks

/-- In a pass that goes on from a journal, the request of a step is accepted by the time that the
pass gets to the step, and a look for the effect finds it stable, unless there is nothing to look
for. -/
inductive FindsStable (run : Run M) (n : Nat) (step : Step M) (past : Journal) : Journal → Prop
  /-- The place of the look in the pass. -/
  | intro {back : List (Step M)} {r r₁ r₂ : ProgressRecord M} {observed : Option Value}
      {before first second after : Journal} (harrives : run.Arrives n (step :: back) r (past ++ before))
      (haccepted : Accepted run.faults run.chain.config run.remote (run.targets n) step r
        (past ++ before) r₁ first)
      (hstabilized : Stabilized run.faults run.chain.config run.remote (run.targets n) step r₁
        (past ++ before ++ first) (.ok (.ok (observed, r₂))) second) :
      FindsStable run n step past (before ++ first ++ second ++ after)

/-- How the cool-down of a step that always asks for one is served in so many passes of a run;
`back` are the steps behind it. -/
structure ServesCoolDown (run : Run M) (limit : Nat) (step : Step M) (back : List (Step M))
    (delay : UInt64) : Prop where
  /-- At most one pass is suspended for it. -/
  once : (run.passes limit).countP (·.coolsDown step.name) ≤ 1
  /-- A pass that is suspended for it ends with the delay and leaves the step incomplete. It has
  found the effect stable, and does nothing for the steps behind. -/
  suspended : ∀ {before report after}, run.passes limit = before ++ report :: after →
    report.coolsDown step.name = true →
      (∃ r, report.result = .ok (.inProgress delay r) ∧ r.isDone step.name = false) ∧
      run.FindsStable before.length step (journalOf before) report.journal ∧
      step.name ∉ report.journal.finished ∧ ∀ later ∈ back, report.journal.Omits later.name
  /-- What the journal says to be complete is what is marked so. -/
  marked : ∀ {before report after delay r}, run.passes limit = before ++ report :: after →
    report.result = .ok (.inProgress delay r) →
      (r.isDone step.name = true ↔ step.name ∈ (journalOf before ++ report.journal).finished)
  /-- A pass that completes the step has met a fault that the step lives with, or comes after the
  one that was suspended for the cool-down, and has found the effect stable again. -/
  completed : ∀ {before report after}, run.passes limit = before ++ report :: after →
    step.name ∈ report.journal.finished →
      (∃ request fault, sent step request (.error fault) ∈ report.journal ∧
        step.suppress (run.faults.classify fault) (run.targets before.length) = true) ∨
      (∃ earlier ∈ before, earlier.coolsDown step.name = true) ∧
        run.FindsStable before.length step (journalOf before) report.journal

section Asks

variable {delay : UInt64} (hnames : run.chain.NamesApart)
  (hkeeps : ∀ step ∈ run.chain.steps, step.KeepsMarks)
  (hsteps : run.chain.steps = front ++ step :: back)
  (hasks : ∀ observed r, (step.onComplete observed r).1 = .coolDown delay)
include hnames hkeeps hsteps hasks

/-- A pass in which a cool-down begins ends with it, and so does not get behind the step. -/
theorem suspended_of_coolsDown {journal : Journal} (harrives : run.Arrives n run.chain.steps r past)
    (hwalked : Walked run.faults run.chain.config run.remote (run.targets n) run.chain.steps r past
      result journal) (hcools : ∃ entry ∈ journal, entry.coolsDown step.name = true) :
    (∃ r, result = .ok (.inProgress delay r) ∧ r.isDone step.name = false) ∧
      run.FindsStable n step past journal ∧ step.name ∉ journal.finished ∧
      ∀ later ∈ back, journal.Omits later.name := by
  have hstep : step ∈ run.chain.steps := by simp [hsteps]
  obtain ⟨entry, hentry, hcools⟩ := hcools
  obtain ⟨mid, other, rest, r₀, left, before, gained, after, hsplit, rfl, hgained, hvisit⟩ :=
    harrives.exists_passVisit hwalked hentry
  obtain ⟨back', harrives'⟩ := hvisit.arrives
  obtain ⟨hname, r₁, r₂, observed, outcome, first, second, third, haccepted, hstabilized,
    hcompleted, rfl, rfl⟩ := hvisit.visits.exists_cooling hgained hcools
  obtain rfl := hnames.eq_of_name_eq hstep harrives'.mem hname
  obtain rfl := hnames.front_eq hsteps hsplit
  obtain ⟨rfl, rfl⟩ := hvisit.stops outcome rfl
  have hfront := hvisit.omits step.name fun other hmem => hnames.name_ne hsteps (.inl hmem)
  refine ⟨?_, ?_, ?_, ?_⟩
  · cases hcompleted with
    | @cooling _ r₃ hcompletion hnew =>
      have hdelay := hasks observed r₂
      rw [hcompletion] at hdelay
      obtain rfl := Completion.coolDown.inj hdelay
      refine ⟨_, rfl, ?_⟩
      rw [hvisit.visits.isDone_eq_of_suspended (hkeeps step hstep) rfl]
      exact (takesUp_iff.mp hvisit.takes).1
  · have hfinds : run.FindsStable n step past (before ++ first ++ second ++ third) :=
      .intro harrives' haccepted hstabilized
    simpa using hfinds
  · rw [List.append_nil, Journal.finished_append, hvisit.visits.finished, List.append_nil]
    exact hfront.2
  · intro later hlater
    obtain ⟨between, behind, rfl⟩ := List.append_of_mem hlater
    have hsplit' : run.chain.steps = (front ++ step :: between) ++ later :: behind := by
      rw [hsteps, List.append_assoc, List.cons_append]
    have hapart : ∀ other ∈ front ++ step :: between, other.name ≠ later.name :=
      fun other hmem => hnames.name_ne hsplit' (.inl hmem)
    obtain ⟨hearlier, hown⟩ := List.forall_mem_append.mp hapart
    rw [List.append_nil]
    exact (hvisit.omits later.name hearlier).append
      (hvisit.visits.omits (hown step List.mem_cons_self))

variable (hstart : run.start = .empty)
include hstart

/-- A pass that completes the step has met a fault that the step lives with, or comes after the
cool-down and has found the effect stable. -/
theorem tolerated_or_findsStable {journal : Journal}
    (harrives : run.Arrives n run.chain.steps r past)
    (hwalked : Walked run.faults run.chain.config run.remote (run.targets n) run.chain.steps r past
      result journal) (hfinished : step.name ∈ journal.finished) :
    (∃ request fault, sent step request (.error fault) ∈ journal ∧
      step.suppress (run.faults.classify fault) (run.targets n) = true) ∨
    (∃ entry ∈ past, entry.coolsDown step.name = true) ∧ run.FindsStable n step past journal := by
  have hstep : step ∈ run.chain.steps := by simp [hsteps]
  obtain ⟨entry, hentry, hnames?⟩ := List.mem_filterMap.mp hfinished
  obtain ⟨mid, other, rest, r₀, left, before, gained, after, hsplit, rfl, hgained, hvisit⟩ :=
    harrives.exists_passVisit hwalked hentry
  obtain ⟨back', harrives'⟩ := hvisit.arrives
  have hown : step.name ∈ gained.finished := List.mem_filterMap.mpr ⟨entry, hgained, hnames?⟩
  rw [hvisit.visits.finished] at hown
  rcases left with defect | outcome | r'
  · cases hown
  · cases hown
  · obtain rfl := hnames.eq_of_name_eq hstep harrives'.mem (List.mem_singleton.mp hown)
    cases hvisit.visits with
    | tolerated _ hissued =>
      cases hissued with
      | @tolerated request fault _ _ hlives => exact .inl ⟨request, fault, by simp, hlives⟩
    | @shown _ _ _ _ first second third haccepted hstabilized hcompleted =>
      right
      have hserved := (hstabilized.isCooled_eq (hkeeps step hstep) haccepted).symm.trans
        (hcompleted.isCooled hasks (hkeeps step hstep))
      have hbegun := harrives'.suspended_of_isCooled hnames hkeeps hstart hstep hasks hserved
      have hcools : (Entry.suspended step.name .coolDown delay).coolsDown step.name = true :=
        decide_eq_true rfl
      refine ⟨⟨_, (List.mem_append.mp hbegun).resolve_right fun hnow => ?_, hcools⟩, ?_⟩
      · -- A cool-down in this pass would have ended it before the step is complete.
        obtain ⟨-, -, hopen, -⟩ := suspended_of_coolsDown hnames hkeeps hsteps hasks harrives
          hwalked ⟨_, by simp [hnow], hcools⟩
        exact hopen hfinished
      · have hfinds : run.FindsStable n step past (before ++ first ++ second ++ (third ++ after)) :=
          .intro harrives' haccepted hstabilized
        simpa using hfinds

/-- The cool-down of a step that always asks for one is served once, and the step is complete only
after another look, unless it lives with the fault that its request meets. -/
theorem servesCoolDown (limit : Nat) : run.ServesCoolDown limit step back delay := by
  have hstep : step ∈ run.chain.steps := by simp [hsteps]
  refine ⟨run.countP_coolsDown_le_one hkeeps limit step.name, ?_, ?_, ?_⟩
  · intro before report after hreports hcools
    obtain ⟨r, harrives, hwalked⟩ := walked_of_passes hreports
    exact suspended_of_coolsDown hnames hkeeps hsteps hasks harrives hwalked
      (List.any_eq_true.mp hcools)
  · intro before report after delay r hreports hsuspended
    have hends := ends_of_passes hreports
    rw [hsuspended] at hends
    rw [← hends.arrives.isDone_iff hnames hkeeps hstart hstep, ProgressRecord.isDone,
      ProgressRecord.isDone, flag_seed]
  · intro before report after hreports hfinished
    obtain ⟨r, harrives, hwalked⟩ := walked_of_passes hreports
    refine (tolerated_or_findsStable hnames hkeeps hsteps hasks hstart harrives hwalked
      hfinished).imp_right ?_
    rintro ⟨⟨entry, hentry, hcools⟩, hfinds⟩
    refine ⟨?_, hfinds⟩
    obtain ⟨earlier, hearlier, hmem⟩ := List.mem_flatMap.mp hentry
    exact ⟨earlier, hearlier, List.any_eq_true.mpr ⟨entry, hmem, hcools⟩⟩

end Asks

end Run

end Lifecycle
