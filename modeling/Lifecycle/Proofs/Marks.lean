import Lifecycle.Proofs.Run

/-!
# Marks of steps across visits and passes

No visit to a step clears a mark, and the only marks that it sets are those of the
step itself (`Visited.marks`). Which of the three marks it sets depends on whether
it completes the step (`Visited.marks_of_completed`) or suspends the operation
(`Visited.marks_of_suspended`).
-/

namespace Lifecycle

open Json

variable {M : Type}

/-- A step whose hooks leave the marks of the record alone. -/
structure Step.KeepsMarks (step : Step M) : Prop where
  /-- What the record keeps of an answer is no mark. -/
  capture : ∀ response r, (step.capture response r).flags = r.flags
  /-- What the record keeps of the stable state is no mark. -/
  onComplete : ∀ observed r, (step.onComplete observed r).2.flags = r.flags

/-- The record that a hook leaves on completion has the marks of the one before. -/
theorem Step.KeepsMarks.flags_completed {step : Step M} (h : step.KeepsMarks)
    {observed : Option Value} {completion : Completion} {r r' : ProgressRecord M}
    (hcompletion : step.onComplete observed r = (completion, r')) : r'.flags = r.flags := by
  have hflags := h.onComplete observed r
  rwa [hcompletion] at hflags

namespace ProgressRecord

/-- Marks that are set anew are as they were. -/
theorem flag_mark_of_set {r : ProgressRecord M} {key : String} (h : r.flag key = true) :
    (r.mark key).flag = r.flag := by
  funext other
  by_cases hne : key = other
  · rw [← hne, flag_mark_self, h]
  · exact flag_mark_ne r hne

/-- Setting the same mark keeps records alike in their marks. -/
theorem flag_mark_congr {r s : ProgressRecord M} (h : r.flag = s.flag) (key : String) :
    (r.mark key).flag = (s.mark key).flag := by
  funext other
  by_cases hne : key = other
  · rw [hne, flag_mark_self, flag_mark_self]
  · rw [flag_mark_ne r hne, flag_mark_ne s hne, h]

end ProgressRecord

open ProgressRecord

namespace Chain

variable {faults : FaultTable} {config : ChainConfig} {remote : Remote} {target : Target M}
  {step : Step M} {r r' : ProgressRecord M} {past gained : Journal}

@[simp] theorem flags_seed (target : Target M) (r : ProgressRecord M) :
    (seed target r).flags = r.flags := by
  unfold seed
  cases r.model <;> rfl

@[simp] theorem flag_seed (target : Target M) (r : ProgressRecord M) :
    (seed target r).flag = r.flag :=
  funext (flag_congr (flags_seed target r))

/-- The marks of the record that a suspension leaves are those of the record before. -/
theorem Suspended.flag_eq {cause : SuspensionCause} {policy : BackoffPolicy} {counter : String}
    {exhausted outcome : Outcome M}
    (h : Suspended step cause policy counter r exhausted outcome gained)
    (hexhausted : exhausted.progress? = none) (hleft : outcome.progress? = some r') :
    r'.flag = r.flag := by
  obtain ⟨_, _, rfl⟩ := h.eq_increment hexhausted hleft
  rfl

/-- A request that is not accepted leaves the marks as they are. -/
theorem Issued.flag_eq {outcome : Outcome M}
    (h : Issued faults config remote target step r past (.ok (.halted outcome)) gained)
    (hleft : outcome.progress? = some r') : r'.flag = r.flag := by
  cases h with
  | retried _ _ _ _ hsuspended => exact hsuspended.flag_eq rfl hleft
  | refused => simp [Outcome.ofFault, Outcome.progress?] at hleft

/-- Once the request of a step is accepted, the record says so; no other mark changes. -/
theorem Accepted.flag_eq (hkeeps : step.KeepsMarks)
    (h : Accepted faults config remote target step r past r' gained) :
    r'.flag = (r.markInvoked step.name).flag := by
  cases h with
  | earlier hinvoked => exact (flag_mark_of_set hinvoked).symm
  | now _ hissued =>
    cases hissued with
    | accepted =>
      funext key
      exact flag_congr (hkeeps.capture _ _) key

/-- An effect that shows changes no mark. -/
theorem Stabilized.flag_eq {observed : Option Value}
    (h : Stabilized faults config remote target step r past (.ok (.ok (observed, r'))) gained) :
    r'.flag = r.flag := by
  cases h with
  | undeclared => rfl
  | stable => rfl

/-- An effect that does not show changes no mark. -/
theorem Stabilized.flag_eq_of_suspended {outcome : Outcome M}
    (h : Stabilized faults config remote target step r past (.ok (.error outcome)) gained)
    (hleft : outcome.progress? = some r') : r'.flag = r.flag := by
  cases h with
  | refused => simp [Outcome.ofFault, Outcome.progress?] at hleft
  | @pending s favourable _ _ _ _ _ _ hsuspended =>
    rw [hsuspended.flag_eq rfl hleft]
    cases favourable <;> rfl

/-- A complete step is marked as such, and no other mark changes. -/
theorem Completed.flag_eq {observed : Option Value} (hkeeps : step.KeepsMarks)
    (h : Completed step observed r (.ok r') gained) : r'.flag = (r.markDone step.name).flag := by
  cases h with
  | @advanced _ r' hcompletion =>
    have hflags := hkeeps.flags_completed hcompletion
    exact flag_mark_congr (funext (flag_congr hflags)) _

/-- A cool-down that begins is marked as served, and no other mark changes. -/
theorem Completed.flag_eq_of_suspended {observed : Option Value} {outcome : Outcome M}
    (hkeeps : step.KeepsMarks) (h : Completed step observed r (.error outcome) gained)
    (hleft : outcome.progress? = some r') : r'.flag = (r.markCooled step.name).flag := by
  cases h with
  | @cooling _ r' hcompletion =>
    have hflags := hkeeps.flags_completed hcompletion
    obtain rfl := Option.some.inj hleft
    exact flag_mark_congr (funext (flag_congr hflags)) _

/-- A record has all the marks of another one, and beyond these at most marks of one step. -/
structure Marks (name : String) (r r' : ProgressRecord M) : Prop where
  /-- No mark is cleared. -/
  kept : ∀ key, r.flag key = true → r'.flag key = true
  /-- A new mark is one of the step. -/
  own : ∀ key, r'.flag key = true →
    r.flag key = true ∨ key = name ∨ key = cooledKey name ∨ key = doneKey name

/-- Records with the same marks. -/
theorem Marks.of_flag_eq {name : String} (h : r'.flag = r.flag) : Marks name r r' := by
  constructor
  · intro key hset
    rw [h, hset]
  · intro key hset
    exact .inl (h ▸ hset)

/-- Setting one more mark of the step. -/
theorem Marks.mark {name key : String} {r'' : ProgressRecord M} (h : Marks name r r')
    (hkey : key = name ∨ key = cooledKey name ∨ key = doneKey name)
    (heq : r''.flag = (r'.mark key).flag) : Marks name r r'' := by
  constructor
  · intro other hset
    rw [heq]
    exact flag_mark_of_flag (h.kept other hset) key
  · intro other hset
    rw [heq] at hset
    by_cases hne : key = other
    · exact .inr (hne ▸ hkey)
    · exact h.own other (flag_mark_ne r' hne ▸ hset)

/-- A mark that is none of the step is set exactly when it was set before. -/
theorem Marks.flag_eq {name key : String} (h : Marks name r r')
    (hkey : key ≠ name ∧ key ≠ cooledKey name ∧ key ≠ doneKey name) : r'.flag key = r.flag key := by
  obtain ⟨hname, hcooled, hdone⟩ := hkey
  rw [Bool.eq_iff_iff]
  constructor
  · intro hset
    rcases h.own key hset with hold | rfl | rfl | rfl
    · exact hold
    · exact absurd rfl hname
    · exact absurd rfl hcooled
    · exact absurd rfl hdone
  · exact h.kept key

/-- A visit that suspends the operation sets at most the marks of the step that say that its request
is accepted and its cool-down served. -/
theorem Visited.marks_of_suspended {outcome : Outcome M} (hkeeps : step.KeepsMarks)
    (h : Visited faults config remote target step r past (.ok (.error outcome)) gained)
    (hleft : outcome.progress? = some r') :
    r'.flag = r.flag ∨ r'.flag = (r.markInvoked step.name).flag ∨
      r'.flag = ((r.markInvoked step.name).markCooled step.name).flag := by
  cases h with
  | halted _ hissued => exact .inl (hissued.flag_eq hleft)
  | unstable haccepted hstabilized =>
    exact .inr (.inl ((hstabilized.flag_eq_of_suspended hleft).trans (haccepted.flag_eq hkeeps)))
  | shown haccepted hstabilized hcompleted =>
    have hinvoked := hstabilized.flag_eq.trans (haccepted.flag_eq hkeeps)
    have hcooled := hcompleted.flag_eq_of_suspended hkeeps hleft
    exact .inr (.inr (hcooled.trans (flag_mark_congr hinvoked _)))

/-- A visit that completes a step sets the mark that says so, and at most the mark that its request
is accepted. -/
theorem Visited.marks_of_completed (hkeeps : step.KeepsMarks)
    (h : Visited faults config remote target step r past (.ok (.ok r')) gained) :
    r'.flag = (r.markDone step.name).flag ∨
      r'.flag = ((r.markInvoked step.name).markDone step.name).flag := by
  cases h with
  | tolerated => exact .inl rfl
  | shown haccepted hstabilized hcompleted =>
    have hinvoked := hstabilized.flag_eq.trans (haccepted.flag_eq hkeeps)
    exact .inr ((hcompleted.flag_eq hkeeps).trans (flag_mark_congr hinvoked _))

/-- No visit clears a mark or sets one of another step. -/
theorem Visited.marks {result : Except Defect (Except (Outcome M) (ProgressRecord M))}
    (hkeeps : step.KeepsMarks)
    (h : Visited faults config remote target step r past result gained)
    (hleft : recordLeft? result = some r') : Marks step.name r r' := by
  have hrefl : Marks step.name r r := .of_flag_eq rfl
  have hinvoked : Marks step.name r (r.markInvoked step.name) := hrefl.mark (.inl rfl) rfl
  rcases result with defect | outcome | r''
  · simp [recordLeft?] at hleft
  · rcases h.marks_of_suspended hkeeps hleft with hflag | hflag | hflag
    · exact .of_flag_eq hflag
    · exact hrefl.mark (.inl rfl) hflag
    · exact hinvoked.mark (.inr (.inl rfl)) hflag
  · obtain rfl := Option.some.inj hleft
    rcases h.marks_of_completed hkeeps with hflag | hflag
    · exact hrefl.mark (.inr (.inr rfl)) hflag
    · exact hinvoked.mark (.inr (.inr rfl)) hflag

end Chain

end Lifecycle
