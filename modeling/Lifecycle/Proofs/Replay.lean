import Lifecycle.Proofs.Calls
import Lifecycle.Proofs.Hooks

/-!
# Records as replays of the journal

What a record shows of the remote service is what it showed at the beginning, brought up
to date by the entries of the journal, one after the other (`Run.Arrives.shows`). For this
each step has to keep up with the journal (`Step.KeepsUp`): its hooks do to the record what
the entry of the answer does to what the record shows. The model is a case of this
(`Run.Arrives.model_eq`). A replay of two things at once is two replays, if the one is over
before the other begins (`Journal.foldl_comp`).
-/

namespace Lifecycle

open Json ProgressRecord

variable {M α : Type}

namespace Journal

/-- Entries that change nothing leave a replay where it was. -/
theorem foldl_of_quiet {take : α → Entry → α} {j : Journal}
    (h : ∀ entry ∈ j, ∀ a, take a entry = a) (a : α) : j.foldl take a = a := by
  induction j with
  | nil => rfl
  | cons entry j ih =>
    obtain ⟨hentry, hj⟩ := List.forall_mem_cons.mp h
    rw [List.foldl_cons, hentry, ih hj]

/-- A replay of two things at once is a replay of the one and then of the other, if nothing happens
to the first one after something has happened to the second one. -/
theorem foldl_comp {first second : α → Entry → α} {j : Journal}
    (h : Throughout (fun before entry => (∀ a, first a entry = a) ∨
      ∀ other ∈ before, ∀ a, second a other = a) j) (a : α) :
    j.foldl (fun a entry => second (first a entry) entry) a = j.foldl second (j.foldl first a) := by
  induction j using List.reverseRecOn with
  | nil => rfl
  | append_singleton j entry ih =>
    obtain ⟨hj, hentry⟩ := throughout_append.mp h
    simp only [List.foldl_append, List.foldl_cons, List.foldl_nil, ih hj]
    rcases throughout_singleton.mp hentry with hfirst | hsecond
    · rw [hfirst, hfirst]
    · rw [List.append_nil] at hsecond
      rw [foldl_of_quiet hsecond, foldl_of_quiet hsecond]

end Journal

/-- Nothing but answers of the remote service counts. -/
structure OnlyAnswers (take : α → Entry → α) : Prop where
  /-- An entry that is no call changes nothing. -/
  other : ∀ entry, entry.isCall = false → ∀ a, take a entry = a
  /-- A fault changes nothing. -/
  fault : ∀ purpose call fault a, take a (.exchanged purpose ⟨call, .error fault⟩) = a

/-- Nothing but answers counts for two things at once, if that is so for each of them. -/
theorem OnlyAnswers.comp {first second : α → Entry → α} (hfirst : OnlyAnswers first)
    (hsecond : OnlyAnswers second) :
    OnlyAnswers fun a entry => second (first a entry) entry where
  other entry h a := by rw [hfirst.other entry h, hsecond.other entry h]
  fault purpose call fault a := by rw [hfirst.fault, hsecond.fault]

/-- The hooks of the step do to the record what the entries of its answers do to what the record
shows. -/
structure Step.KeepsUp (Shows : ProgressRecord M → α → Prop) (take : α → Entry → α)
    (step : Step M) : Prop where
  /-- The request is accepted. -/
  capture : ∀ {r a}, Shows r a → ∀ request response,
    Shows (step.capture response r) (take a (Chain.sent step request (.ok response)))
  /-- A look shows the effect of the request. -/
  shown : ∀ {r a}, Shows r a → ∀ {target r' s state},
    step.stabilization target r' = .ok (some s) → step.isStable (.present state) target = true →
    Shows (step.onComplete (some state) r).2 (take a (Chain.looked step s (.ok state)))
  /-- There is nothing to be seen. -/
  absent : ∀ {r a}, Shows r a → Shows (step.onComplete none r).2 a
  /-- A look does not show the effect, or not often enough. -/
  pending : ∀ {target r' s state}, step.stabilization target r' = .ok (some s) →
    (step.isStable (.present state) target = true → 1 < s.minObservations) →
    ∀ a, take a (Chain.looked step s (.ok state)) = a

namespace Chain

variable {Shows : ProgressRecord M → α → Prop} {take : α → Entry → α} {faults : FaultTable}
  {config : ChainConfig} {remote : Remote} {target : Target M} {step : Step M}
  {r r' : ProgressRecord M} {a : α} {past gained : Journal}

/-- Pauses change nothing. -/
theorem foldl_of_isPause (htake : OnlyAnswers take) {j : Journal}
    (h : ∀ entry ∈ j, entry.isPause = true) (a : α) : j.foldl take a = a :=
  Journal.foldl_of_quiet
    (fun entry hentry => htake.other entry (Entry.isCall_of_isPause (h entry hentry))) a

/-- The wait in place before a request changes nothing. -/
theorem foldl_settling (htake : OnlyAnswers take) (a : α) :
    (settling step r).foldl take a = a :=
  foldl_of_isPause htake (fun _ => isPause_of_mem_settling) a

/-- A request that is turned away changes nothing. -/
theorem Issued.foldl_of_halted {outcome : Outcome M} (htake : OnlyAnswers take)
    (h : Issued faults config remote target step r past (.ok (.halted outcome)) gained) (a : α) :
    gained.foldl take a = a := by
  cases h with
  | retried _ _ _ _ hsuspended =>
    rw [List.foldl_append, foldl_settling htake, List.foldl_cons, sent, htake.fault,
      foldl_of_isPause htake hsuspended.isPause]
  | refused =>
    rw [List.foldl_append, foldl_settling htake, List.foldl_cons, sent, htake.fault, List.foldl_nil]

/-- A fault that the step lives with changes nothing. -/
theorem Issued.foldl_of_tolerated (htake : OnlyAnswers take)
    (h : Issued faults config remote target step r past (.ok .tolerated) gained) (a : α) :
    gained.foldl take a = a := by
  cases h with
  | tolerated =>
    rw [List.foldl_append, foldl_settling htake, List.foldl_cons, sent, htake.fault,
      List.foldl_cons, htake.other _ rfl, List.foldl_nil]

section KeepsUp

variable (htake : OnlyAnswers take) (hunmarked : ∀ a, Unmarked fun r => Shows r a)
  (hstep : step.KeepsUp Shows take)
include htake hunmarked hstep

/-- Having a request accepted keeps up with the journal. -/
theorem Accepted.shows (h : Accepted faults config remote target step r past r' gained)
    (hr : Shows r a) : Shows r' (gained.foldl take a) := by
  cases h with
  | earlier => exact hr
  | now _ hissued =>
    cases hissued with
    | accepted =>
      rw [List.foldl_append, foldl_settling htake, acceptedRecord]
      refine hstep.capture ?_ _ _
      exact hunmarked a hr rfl rfl

/-- A look that is not enough leaves what the record shows. -/
theorem Stabilized.shows_of_suspended {outcome : Outcome M}
    (h : Stabilized faults config remote target step r past (.ok (.error outcome)) gained)
    (hleft : outcome.progress? = some r') (hr : Shows r a) : Shows r' (gained.foldl take a) := by
  have hshows : Shows r' a := h.keeps_of_suspended (hunmarked a) hleft hr
  cases h with
  | refused => cases hleft
  | @pending s favourable _ _ _ hdeclared hverdict hshort hsuspended =>
    rw [List.foldl_cons, foldl_of_isPause htake hsuspended.isPause, looked]
    cases hanswer : remote past.exchanges s.probe.call with
    | error fault => rwa [htake.fault]
    | ok state =>
      rw [verdict, hanswer] at hverdict
      obtain ⟨hstable, _⟩ := Prod.mk.inj (Except.ok.inj hverdict)
      have hfew : step.isStable (.present state) target = true → 1 < s.minObservations :=
        fun hfavourable => one_lt_of_short (hshort (hstable.symm.trans hfavourable))
      have hpending := hstep.pending hdeclared hfew a
      rw [looked] at hpending
      rwa [hpending]

/-- Completing a step when its effect has set in keeps up with the journal. -/
theorem Stabilized.shows_of_completed {observed : Option Value} {r'' : ProgressRecord M}
    {result : Except (Outcome M) (ProgressRecord M)} {later : Journal}
    (h : Stabilized faults config remote target step r past (.ok (.ok (observed, r'))) gained)
    (hcompleted : Completed step observed r' result later)
    (hleft : recordLeft? (.ok result) = some r'') (hr : Shows r a) :
    Shows r'' ((gained ++ later).foldl take a) := by
  have hquiet : ∀ a, later.foldl take a = a :=
    Journal.foldl_of_quiet fun entry hentry => htake.other entry (hcompleted.calls hentry)
  have hshown : Shows (step.onComplete observed r').2 (gained.foldl take a) := by
    cases h with
    | undeclared => exact hstep.absent hr
    | @stable s _ hdeclared hverdict _ =>
      rw [List.foldl_cons, List.foldl_nil]
      have hr' : Shows (r.increment (Step.tallyKey step.name)) a := hunmarked a hr rfl rfl
      rcases favourable_of_verdict hverdict with
        ⟨state, hanswer, rfl, hstable⟩ | ⟨⟨fault, hanswer, _⟩, rfl, _⟩
      · rw [hanswer]
        exact hstep.shown hr' hdeclared hstable
      · rw [hanswer, looked, htake.fault]
        exact hstep.absent hr'
  rw [List.foldl_append, hquiet]
  cases hcompleted with
  | cooling hcompletion =>
    obtain rfl := Option.some.inj hleft
    rw [hcompletion] at hshown
    exact hunmarked _ hshown rfl rfl
  | advanced hcompletion =>
    obtain rfl := Option.some.inj hleft
    rw [hcompletion] at hshown
    exact hunmarked _ hshown rfl rfl

/-- A visit to a step that keeps up with the journal keeps up with it. -/
theorem Visited.shows {result : Except Defect (Except (Outcome M) (ProgressRecord M))}
    (h : Visited faults config remote target step r past result gained)
    (hleft : recordLeft? result = some r') (hr : Shows r a) : Shows r' (gained.foldl take a) := by
  cases h with
  | unmade => cases hleft
  | halted _ hissued =>
    rw [hissued.foldl_of_halted htake]
    exact hissued.keeps (hunmarked a) hleft hr
  | tolerated _ hissued =>
    obtain rfl := Option.some.inj hleft
    rw [hissued.foldl_of_tolerated htake]
    exact hunmarked a hr rfl rfl
  | unseen => cases hleft
  | unstable haccepted hstabilized =>
    rw [List.foldl_append]
    exact hstabilized.shows_of_suspended htake hunmarked hstep hleft
      (haccepted.shows htake hunmarked hstep hr)
  | shown haccepted hstabilized hcompleted =>
    rw [List.append_assoc, List.foldl_append]
    exact hstabilized.shows_of_completed htake hunmarked hstep hcompleted hleft
      (haccepted.shows htake hunmarked hstep hr)

end KeepsUp

end Chain

/-- Wherever a run over steps that keep up with the journal gets to, the record shows what the
journal replays to. -/
theorem Run.Arrives.shows {run : Run M} (Shows : ProgressRecord M → α → Prop)
    {take : α → Entry → α} (htake : OnlyAnswers take) (hunmarked : ∀ a, Unmarked fun r => Shows r a)
    (hsteps : ∀ step ∈ run.chain.steps, step.KeepsUp Shows take) {start : α}
    (hstart : Shows (Chain.seed (run.targets 0) run.start) start)
    (hseed : ∀ n r a, Shows r a → Shows (Chain.seed (run.targets n) r) a) {n : Nat}
    {steps : List (Step M)} {r : ProgressRecord M} {past : Journal}
    (harrives : run.Arrives n steps r past) : Shows r (past.foldl take start) := by
  refine harrives.invariant (I := fun r past => Shows r (past.foldl take start)) hstart ?_ ?_
  · exact fun n r past hr => hseed n r _ hr
  · intro n step steps r r' past result gained harrives _ hvisited hleft hr
    rw [List.foldl_append]
    exact hvisited.shows htake hunmarked (hsteps step harrives.mem) hleft hr

section Model

variable {take : M → Entry → M}

/-- A step whose looks tell nothing about the model keeps up with the journal when the answer to its
request changes the model as it should and nothing else changes it. -/
theorem Step.keepsUp_of_model {step : Step M}
    (hlooked : ∀ s answer model, take model (Chain.looked step s answer) = model)
    (hcapture : ∀ {r model}, r.model = some model → ∀ request response,
      (step.capture response r).model = some (take model (Chain.sent step request (.ok response))))
    (hcomplete : ∀ observed r, (step.onComplete observed r).2.model = r.model) :
    step.KeepsUp (fun r model => r.model = some model) take where
  capture := hcapture
  shown h _ _ _ _ _ _ := by
    rw [hlooked]
    exact (hcomplete _ _).trans h
  absent h := (hcomplete none _).trans h
  pending _ _ model := hlooked _ _ model

/-- Wherever a run gets to, the model in its record is the desired one, brought up to date by the
journal. -/
theorem Run.Arrives.model_eq {run : Run M} {target : Target M} (htake : OnlyAnswers take)
    (hsteps : ∀ step ∈ run.chain.steps, step.KeepsUp (fun r model => r.model = some model) take)
    (hstart : run.start = .empty) (htargets : ∀ n, run.targets n = target) {n : Nat}
    {steps : List (Step M)} {r : ProgressRecord M} {past : Journal}
    (harrives : run.Arrives n steps r past) :
    r.model = some (past.foldl take target.desired) := by
  refine harrives.shows (fun r model => r.model = some model) htake
    (fun _ _ _ h hmodel _ => hmodel.trans h) hsteps ?_ ?_
  · rw [hstart, htargets]
    rfl
  · intro n r model hmodel
    rwa [Chain.seed, hmodel]

end Model

end Lifecycle
