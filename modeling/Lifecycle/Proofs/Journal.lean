import Lifecycle.Session
import Mathlib.Data.List.Induction

/-!
# Journals entry by entry

`Throughout Q j` says of a journal that each of its entries is in keeping with
the entries before it. Such a property is settled piece by piece, in the order in
which a session writes its journal (`throughout_append`). An event that happens
at most once is counted from it (`countP_le_one_of_throughout`). `Onward Q j` says the
same of the entries after each entry.
-/

namespace Lifecycle

open Json

namespace Journal

/-- Every entry is in keeping with the entries before it. -/
def Throughout (Q : Journal → Entry → Prop) (j : Journal) : Prop :=
  ∀ before entry after, j = before ++ entry :: after → Q before entry

variable {Q : Journal → Entry → Prop}

@[simp] theorem throughout_nil : Throughout Q [] := by
  intro before entry after h
  simp at h

/-- A journal that goes on is in keeping exactly when its first part is and what follows is in
keeping with all before it. -/
theorem throughout_append {past gained : Journal} :
    Throughout Q (past ++ gained) ↔
      Throughout Q past ∧ Throughout (fun before entry => Q (past ++ before) entry) gained := by
  constructor
  · intro h
    constructor
    · intro before entry after he
      exact h before entry (after ++ gained) (by simp [he])
    · intro before entry after he
      exact h (past ++ before) entry after (by simp [he])
  · rintro ⟨hpast, hgained⟩ before entry after he
    rcases List.append_eq_append_iff.mp he with ⟨middle, hb, hg⟩ | ⟨middle, hp, hm⟩
    · rw [hb]
      exact hgained middle entry after hg
    · cases middle with
      | nil =>
        have hb : before = past := by simpa using hp.symm
        rw [hb, ← List.append_nil past]
        exact hgained [] entry after (by simpa using hm.symm)
      | cons first rest =>
        obtain ⟨rfl, _⟩ := List.cons.inj hm
        exact hpast before entry rest hp

@[simp] theorem throughout_singleton {entry : Entry} : Throughout Q [entry] ↔ Q [] entry := by
  constructor
  · intro h
    exact h [] entry [] rfl
  · intro h before other after he
    cases before with
    | nil =>
      obtain ⟨rfl, _⟩ := List.cons.inj he
      exact h
    | cons => simp at he

theorem throughout_cons {entry : Entry} {j : Journal} :
    Throughout Q (entry :: j) ↔
      Q [] entry ∧ Throughout (fun before later => Q (entry :: before) later) j := by
  rw [← List.singleton_append, throughout_append, throughout_singleton]
  rfl

/-- A weaker property holds throughout as well. -/
theorem Throughout.imp {Q' : Journal → Entry → Prop} {j : Journal} (h : Throughout Q j)
    (himp : ∀ before entry, entry ∈ j → Q before entry → Q' before entry) : Throughout Q' j := by
  intro before entry after he
  exact himp before entry (by simp [he]) (h before entry after he)

/-- Nothing is asked of what is before an event that does not happen. -/
theorem throughout_of_forall_eq_false {p : Entry → Bool} {R : Journal → Entry → Prop} {j : Journal}
    (h : ∀ entry ∈ j, p entry = false) :
    Throughout (fun before entry => p entry = true → R before entry) j := by
  intro before entry after he hp
  have hnot := h entry (by simp [he])
  cases hnot.symm.trans hp

/-- An event that never follows another one of its kind happens at most once. -/
theorem countP_le_one_of_throughout {p : Entry → Bool} {j : Journal}
    (h : Throughout (fun before entry => p entry = true → ∀ other ∈ before, p other = false) j) :
    j.countP p ≤ 1 := by
  induction j using List.reverseRecOn with
  | nil => simp
  | append_singleton j entry ih =>
    obtain ⟨hj, hentry⟩ := throughout_append.mp h
    rw [List.countP_append, List.countP_singleton]
    cases hp : p entry with
    | false => simpa [hp] using ih hj
    | true =>
      have hnone := throughout_singleton.mp hentry hp
      have hzero : j.countP p = 0 := by
        rw [List.countP_eq_zero]
        intro other ho
        simp [hnone other (by simpa using ho)]
      simp [hzero]

/-- Every entry is in keeping with the entries after it. -/
def Onward (Q : Entry → Journal → Prop) (j : Journal) : Prop :=
  ∀ before entry after, j = before ++ entry :: after → Q entry after

@[simp] theorem onward_nil {Q : Entry → Journal → Prop} : Onward Q [] := by
  intro before entry after h
  simp at h

theorem onward_cons {Q : Entry → Journal → Prop} {entry : Entry} {j : Journal} :
    Onward Q (entry :: j) ↔ Q entry j ∧ Onward Q j := by
  constructor
  · intro h
    exact ⟨h [] entry j rfl, fun before other after he => h (entry :: before) other after (by simp [he])⟩
  · rintro ⟨hentry, hj⟩ before other after he
    cases before with
    | nil =>
      obtain ⟨rfl, rfl⟩ := List.cons.inj he
      exact hentry
    | cons first rest => exact hj rest other after (List.cons.inj he).2

/-- A journal that goes on is in keeping exactly when what follows is and its first part is in
keeping with all after it. -/
theorem onward_append {Q : Entry → Journal → Prop} {first rest : Journal} :
    Onward Q (first ++ rest) ↔
      Onward (fun entry after => Q entry (after ++ rest)) first ∧ Onward Q rest := by
  induction first with
  | nil => simp
  | cons entry first ih => rw [List.cons_append, onward_cons, onward_cons, ih, and_assoc]

/-- A weaker property of what is after each entry holds as well. -/
theorem Onward.imp {Q Q' : Entry → Journal → Prop} {j : Journal} (h : Onward Q j)
    (himp : ∀ entry ∈ j, ∀ after, Q entry after → Q' entry after) : Onward Q' j := by
  intro before entry after he
  exact himp entry (by simp [he]) after (h before entry after he)

/-- What holds of entries whatever comes after them. -/
theorem onward_of_forall {Q : Entry → Journal → Prop} {j : Journal}
    (h : ∀ entry ∈ j, ∀ after, Q entry after) : Onward Q j := by
  intro before entry after he
  exact h entry (by simp [he]) after

theorem exchanges_append (past gained : Journal) :
    exchanges (past ++ gained) = exchanges past ++ exchanges gained := List.filterMap_append

/-- The exchanges of a journal are those of its calls. -/
theorem mem_exchanges {exchange : Exchange} {j : Journal} :
    exchange ∈ j.exchanges ↔ ∃ purpose, .exchanged purpose exchange ∈ j := by
  rw [exchanges, List.mem_filterMap]
  constructor
  · rintro ⟨entry, hentry, heq⟩
    cases entry with
    | exchanged purpose other =>
      obtain rfl := Option.some.inj heq
      exact ⟨purpose, hentry⟩
    | _ => cases heq
  · rintro ⟨purpose, hentry⟩
    exact ⟨_, hentry, rfl⟩

/-- There are no more exchanges of one kind than entries that all these exchanges belong to. -/
theorem countP_exchanges_le {p : Exchange → Bool} {q : Entry → Bool} {j : Journal}
    (h : ∀ purpose exchange, .exchanged purpose exchange ∈ j → p exchange = true →
      q (.exchanged purpose exchange) = true) : j.exchanges.countP p ≤ j.countP q := by
  rw [exchanges, List.countP_filterMap]
  refine List.countP_mono_left ?_
  intro entry hentry hp
  cases entry with
  | exchanged purpose exchange => exact h purpose exchange hentry hp
  | _ => cases hp

end Journal

end Lifecycle
