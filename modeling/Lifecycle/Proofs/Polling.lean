import Lifecycle.Proofs.Visit
import Mathlib.Data.List.DropRight

/-!
# Polls one after another

What a tally holds is known from the answers alone. Each answer has a verdict, unless it is a fault
that ends its poll (`Poll.verdict?`), and after any number of polls the tally is the number of
favourable verdicts at the end, cut to the greatest count (`Polling.stands_record`). So a state is
stable at a poll when enough verdicts up to it are favourable, and a poll that meets such a fault
neither counts nor starts the row over (`Polling.counts_favourable_verdicts`).
-/

namespace Lifecycle

open Json ProgressRecord

variable {M : Type}

/-- How many verdicts at the end are favourable. -/
def streak (verdicts : List Bool) : Nat := (verdicts.rtakeWhile (· = true)).length

@[simp] theorem streak_nil : streak [] = 0 := rfl

@[simp] theorem streak_concat_true (verdicts : List Bool) :
    streak (verdicts ++ [true]) = streak verdicts + 1 := by
  simp [streak, List.rtakeWhile_concat_pos]

@[simp] theorem streak_concat_false (verdicts : List Bool) : streak (verdicts ++ [false]) = 0 := by
  simp [streak, List.rtakeWhile_concat_neg]

/-- The last so many verdicts are there and favourable when no fewer at the end are favourable. -/
theorem replicate_suffix_iff {least : Nat} {verdicts : List Bool} :
    List.replicate least true <:+ verdicts ↔ least ≤ streak verdicts := by
  induction verdicts using List.reverseRecOn generalizing least with
  | nil => simp [List.suffix_nil]
  | append_singleton verdicts verdict ih =>
    cases least with
    | zero => simp
    | succ least =>
      rw [List.replicate_succ', List.suffix_concat_iff]
      cases verdict with
      | false => simp
      | true => simp [ih]

namespace ProgressRecord

variable {tally : String} {r r' : ProgressRecord M}

/-- A raised counter stops at the greatest count. -/
theorem toNat_nextCount (count : UInt32) :
    (nextCount count).toNat = min (count.toNat + 1) (UInt32.size - 1) := by
  by_cases h : count.toNat < UInt32.size - 1
  · rw [nextCount_toNat h]
    omega
  · have hlt := count.toNat_lt_size
    have hraised := (nextCount count).toNat_lt_size
    have hle := le_nextCount count
    omega

/-- Two records that differ in one counter at most. -/
structure AgreesBut (tally : String) (r r' : ProgressRecord M) : Prop where
  /-- The models are the same. -/
  model : r'.model = r.model
  /-- The marks are the same. -/
  flags : r'.flags = r.flags
  /-- The identifiers are the same. -/
  identifiers : r'.identifiers = r.identifiers
  /-- The other counters are the same. -/
  counters : ∀ key, key ≠ tally → r'.counters.get? key = r.counters.get? key

theorem AgreesBut.refl (tally : String) (r : ProgressRecord M) : AgreesBut tally r r :=
  ⟨rfl, rfl, rfl, fun _ _ => rfl⟩

theorem agreesBut_increment (tally : String) (r : ProgressRecord M) :
    AgreesBut tally r (r.increment tally) :=
  ⟨rfl, rfl, rfl, fun _ hne => Dict.get?_insert_ne _ hne.symm _⟩

theorem agreesBut_resetCounter (tally : String) (r : ProgressRecord M) :
    AgreesBut tally r (r.resetCounter tally) :=
  ⟨rfl, rfl, rfl, fun _ hne => Dict.get?_erase_ne _ hne.symm⟩

end ProgressRecord

namespace Poll

variable {predicate : Observation → Bool} {answer : Except ClassifiedFault Value}
  {tally : String} {r : ProgressRecord M} {verdicts : List Bool}

/-- The verdict on an answer. A state is judged, and so is it that there is none. To be turned away,
or that the service stumbles, is unfavourable. Any other fault ends the poll without a verdict. -/
def verdict? (predicate : Observation → Bool) : Except ClassifiedFault Value → Option Bool
  | .ok state => some (predicate (.present state))
  | .error fault =>
    match fault.disposition with
    | .terminal .notFound => some (predicate .absent)
    | .throttled => some false
    | .transient => some false
    | .terminal _ => none

@[simp] theorem toOption_mapError (faults : FaultTable) (answer : Answer) :
    (answer.mapError faults.classify).toOption = answer.toOption := by
  cases answer <;> rfl

/-- An answer with a verdict is judged by it, and the state it shows is the one described. -/
theorem judge_of_verdict {favourable : Bool} (h : verdict? predicate answer = some favourable) :
    judge predicate answer = .ok (favourable, answer.toOption) := by
  rcases answer with ⟨disposition, fault⟩ | state
  · cases disposition with
    | throttled =>
      obtain rfl := Option.some.inj h
      rfl
    | transient =>
      obtain rfl := Option.some.inj h
      rfl
    | terminal kind =>
      cases kind with
      | notFound =>
        obtain rfl := Option.some.inj h
        rfl
      | _ => cases h
  · obtain rfl := Option.some.inj h
    rfl

/-- An answer without a verdict is a fault that ends the operation, not one that says that the
resource is gone, and it is the result of the poll. -/
theorem exists_judge_of_no_verdict (h : verdict? predicate answer = none) :
    ∃ fault kind, answer = .error fault ∧ fault.disposition = .terminal kind ∧ kind ≠ .notFound ∧
      judge predicate answer = .error fault := by
  rcases answer with ⟨disposition, fault⟩ | state
  · cases disposition with
    | throttled => cases h
    | transient => cases h
    | terminal kind =>
      refine ⟨_, kind, rfl, rfl, ?_, ?_⟩
      · rintro rfl
        cases h
      · cases kind <;> first | rfl | cases h
  · cases h

/-- A tally stands for some verdicts when it holds the number of favourable ones at their end. -/
def Stands (tally : String) (verdicts : List Bool) (r : ProgressRecord M) : Prop :=
  (r.counter tally).toNat = min (streak verdicts) (UInt32.size - 1)

/-- A counter that was never raised stands for no verdicts at all. -/
theorem stands_nil (h : r.counters.get? tally = none) : Stands tally [] r := by
  rw [Stands, counter, h]
  rfl

/-- One more favourable verdict. -/
theorem Stands.increment (h : Stands tally verdicts r) :
    Stands tally (verdicts ++ [true]) (r.increment tally) := by
  rw [Stands, counter_increment_self, toNat_nextCount, h, streak_concat_true]
  omega

/-- An unfavourable verdict starts the row over. -/
theorem stands_resetCounter (tally : String) (verdicts : List Bool) (r : ProgressRecord M) :
    Stands tally (verdicts ++ [false]) (r.resetCounter tally) := by
  rw [Stands, counter_resetCounter_self, streak_concat_false]
  rfl

/-- A tally at its greatest count is enough for whatever can be asked for. -/
theorem Stands.le_counter_iff (h : Stands tally verdicts r) (least : UInt32) :
    max least 1 ≤ r.counter tally ↔ max least.toNat 1 ≤ streak verdicts := by
  have hlt := least.toNat_lt_size
  have hsize : UInt32.size = 4294967296 := rfl
  rw [UInt32.le_iff_toNat_le, Chain.toNat_max, h, UInt32.toNat_one]
  omega

/-- A verdict is folded into a tally that stands for the verdicts before it: the tally stands for
all of them then, nothing else is touched, and the state is stable when enough of them are
favourable. -/
theorem Stands.exists_tallyUp (h : Stands tally verdicts r) (least : UInt32) (favourable : Bool)
    (observed : Option Value) :
    ∃ r', Stands tally (verdicts ++ [favourable]) r' ∧ AgreesBut tally r r' ∧
      tallyUp tally least favourable observed r =
        (if max least.toNat 1 ≤ streak (verdicts ++ [favourable]) then .stable observed
          else .pending, r') := by
  cases favourable with
  | true =>
    refine ⟨r.increment tally, h.increment, agreesBut_increment tally r, ?_⟩
    by_cases henough : max least.toNat 1 ≤ streak (verdicts ++ [true])
    · rw [if_pos henough, tallyUp_of_le ((h.increment.le_counter_iff least).mpr henough)]
    · have hshort := mt (h.increment.le_counter_iff least).mp henough
      rw [if_neg henough, tallyUp_of_lt fun _ => UInt32.not_le.mp hshort, if_pos rfl]
  | false =>
    refine ⟨r.resetCounter tally, stands_resetCounter tally verdicts r,
      agreesBut_resetCounter tally r, ?_⟩
    rw [streak_concat_false, if_neg (by omega)]
    rfl

end Poll

/-- Polls one after another, with one probe, tally and predicate, on one record. -/
structure Polling (M : Type) where
  /-- How faults are classified. -/
  faults : FaultTable
  /-- The service. -/
  remote : Remote
  /-- How the state is looked at. -/
  probe : Probe
  /-- The counter of favourable verdicts. -/
  tally : String
  /-- How many of them in a row are asked for. -/
  least : UInt32
  /-- What is favourable. -/
  predicate : Observation → Bool
  /-- The record before the first poll. -/
  start : ProgressRecord M
  /-- What was done before the first poll. -/
  past : Journal

namespace Polling

/-- One more poll, on a record and a journal. -/
def once (p : Polling M) (r : ProgressRecord M) (past : Journal) :
    Except Defect (Except ClassifiedFault (Poll × ProgressRecord M)) × Journal :=
  (Poll.once p.faults p.probe p.tally p.least p.predicate r).run p.remote past

/-- The record after a poll. A fault comes without a record, and the one before it stays. -/
def recordAfter (r : ProgressRecord M) :
    Except Defect (Except ClassifiedFault (Poll × ProgressRecord M)) → ProgressRecord M
  | .ok (.ok (_, r')) => r'
  | _ => r

/-- The record and the journal after so many polls. -/
def state (p : Polling M) : Nat → ProgressRecord M × Journal
  | 0 => (p.start, p.past)
  | n + 1 =>
    let (r, past) := p.state n
    let (result, journal) := p.once r past
    (recordAfter r result, journal)

/-- The record after so many polls. -/
def record (p : Polling M) (n : Nat) : ProgressRecord M := (p.state n).1

/-- The journal after so many polls. -/
def journal (p : Polling M) (n : Nat) : Journal := (p.state n).2

/-- The result of the poll that so many others came before. -/
def result (p : Polling M) (n : Nat) : Except Defect (Except ClassifiedFault Poll) :=
  (p.once (p.record n) (p.journal n)).1.map (·.map (·.1))

/-- What the service answers in this poll. -/
def answer (p : Polling M) (n : Nat) : Answer := p.remote (p.journal n).exchanges p.probe.call

/-- The verdict on this answer. -/
def verdict? (p : Polling M) (n : Nat) : Option Bool :=
  Poll.verdict? p.predicate ((p.answer n).mapError p.faults.classify)

/-- The verdicts in so many polls. -/
def verdicts (p : Polling M) (n : Nat) : List Bool := (List.range n).filterMap p.verdict?

/-- What comes of a poll whose answer has a verdict. -/
structure Counts (p : Polling M) (n : Nat) : Prop where
  /-- The tally holds the number of favourable verdicts at the end, this one included. -/
  tally : Poll.Stands p.tally (p.verdicts (n + 1)) (p.record (n + 1))
  /-- When there are enough of them, the state seen in this poll is stable, and otherwise nothing
  is. -/
  result : p.result n = .ok (.ok
    (if max p.least.toNat 1 ≤ streak (p.verdicts (n + 1)) then .stable (p.answer n).toOption
      else .pending))

/-- What comes of a poll whose answer has no verdict. -/
structure Breaks (p : Polling M) (n : Nat) : Prop where
  /-- A fault that ends the operation, though not one that says that the resource is gone, is
  passed on. -/
  result : ∃ fault kind, p.answer n = .error fault ∧
    (p.faults.classify fault).disposition = .terminal kind ∧ kind ≠ .notFound ∧
    p.result n = .ok (.error (p.faults.classify fault))
  /-- The record stays as it is. -/
  record : p.record (n + 1) = p.record n

variable {p : Polling M} {n : Nat}

theorem verdicts_succ (p : Polling M) (n : Nat) :
    p.verdicts (n + 1) = p.verdicts n ++ (p.verdict? n).toList := by
  rw [verdicts, List.range_succ, List.filterMap_append, ← verdicts]
  cases hverdict : p.verdict? n <;> simp [hverdict]

/-- A poll is one call, and its answer is judged. -/
theorem once_eq (p : Polling M) (n : Nat) :
    p.once (p.record n) (p.journal n) =
      (.ok ((Poll.judge p.predicate ((p.answer n).mapError p.faults.classify)).map
          fun (favourable, observed) =>
            Poll.tallyUp p.tally p.least favourable observed (p.record n)),
        p.journal n ++ [.exchanged (.observation p.tally) ⟨p.probe.call, p.answer n⟩]) :=
  Poll.run_once ..

theorem journal_succ (p : Polling M) (n : Nat) :
    p.journal (n + 1) =
      p.journal n ++ [.exchanged (.observation p.tally) ⟨p.probe.call, p.answer n⟩] :=
  congrArg Prod.snd (p.once_eq n)

theorem record_succ (p : Polling M) (n : Nat) :
    p.record (n + 1) = recordAfter (p.record n) (p.once (p.record n) (p.journal n)).1 := rfl

/-- A poll whose answer has a verdict counts it. -/
theorem counts_of_verdict {favourable : Bool} (hverdict : p.verdict? n = some favourable)
    (hstands : Poll.Stands p.tally (p.verdicts n) (p.record n)) :
    p.Counts n ∧ AgreesBut p.tally (p.record n) (p.record (n + 1)) := by
  obtain ⟨r', hstands', hagrees, htally⟩ :=
    hstands.exists_tallyUp p.least favourable (p.answer n).toOption
  have honce := p.once_eq n
  rw [Poll.judge_of_verdict hverdict, Poll.toOption_mapError] at honce
  have hverdicts : p.verdicts (n + 1) = p.verdicts n ++ [favourable] := by
    rw [verdicts_succ, hverdict, Option.toList_some]
  rw [← hverdicts] at hstands' htally
  have hresult : (p.once (p.record n) (p.journal n)).1 = .ok (.ok
      (Poll.tallyUp p.tally p.least favourable (p.answer n).toOption (p.record n))) := by
    rw [honce]
    rfl
  rw [htally] at hresult
  have hrecord : p.record (n + 1) = r' := by rw [record_succ, hresult, recordAfter]
  rw [← hrecord] at hstands' hagrees
  refine ⟨⟨hstands', ?_⟩, hagrees⟩
  rw [result, hresult]
  rfl

/-- A poll whose answer has no verdict breaks off. -/
theorem breaks_of_no_verdict (hverdict : p.verdict? n = none) : p.Breaks n := by
  obtain ⟨classified, kind, hanswer, hkind, hne, hjudge⟩ :=
    Poll.exists_judge_of_no_verdict hverdict
  have honce := p.once_eq n
  rw [hjudge] at honce
  refine ⟨?_, by rw [record_succ, honce]; rfl⟩
  cases hreply : p.answer n with
  | ok state => simp [hreply] at hanswer
  | error fault =>
    rw [hreply, Session.mapError_classify_error] at hanswer
    obtain rfl := Except.error.inj hanswer
    refine ⟨fault, kind, rfl, hkind, hne, ?_⟩
    rw [result, honce]
    rfl

/-- After any number of polls, the tally stands for all the verdicts in them. -/
theorem stands_record (habsent : p.start.counters.get? p.tally = none) (n : Nat) :
    Poll.Stands p.tally (p.verdicts n) (p.record n) := by
  induction n with
  | zero => exact Poll.stands_nil habsent
  | succ n ih =>
    cases hverdict : p.verdict? n with
    | some favourable => exact (counts_of_verdict hverdict ih).1.tally
    | none =>
      rwa [(breaks_of_no_verdict hverdict).record, verdicts_succ, hverdict, Option.toList_none,
        List.append_nil]

/-- Polls count the favourable verdicts in a row. Each one makes one call. If there is a verdict on
the answer, the tally holds the favourable ones at the end then, and the state is stable when they
are enough; if there is none, the fault is passed on and the record stays. Nothing but the tally is
ever touched. -/
theorem counts_favourable_verdicts (p : Polling M) (habsent : p.start.counters.get? p.tally = none)
    (n : Nat) :
    p.journal (n + 1) =
      p.journal n ++ [.exchanged (.observation p.tally) ⟨p.probe.call, p.answer n⟩] ∧
    (match p.verdict? n with
      | some _ => p.Counts n
      | none => p.Breaks n) ∧
    AgreesBut p.tally (p.record n) (p.record (n + 1)) := by
  refine ⟨p.journal_succ n, ?_⟩
  cases hverdict : p.verdict? n with
  | some favourable => exact counts_of_verdict hverdict (stands_record habsent n)
  | none =>
    have hbreaks := breaks_of_no_verdict hverdict
    refine ⟨hbreaks, ?_⟩
    rw [hbreaks.record]
    exact .refl p.tally _

/-- A service that shows the resource, turns a look away, shows it, denies a look and shows it
again. -/
def flapping : Polling Unit where
  faults := FaultTable.common
  remote past _ :=
    match past.length with
    | 1 => .error ⟨"Throttling", "slow down", 400⟩
    | 3 => .error ⟨"AccessDenied", "not for you", 403⟩
    | seen => .ok (.bool (seen = 4))
  probe := .describe "it"
  tally := "polls"
  least := 2
  predicate := Observation.isPresent
  start := .empty
  past := []

/-- The look that is denied leaves the row as it is, and the fifth look is the second favourable one
in it. -/
theorem flapping_stable :
    flapping.start.counters.get? flapping.tally = none ∧
    flapping.verdicts 5 = [true, false, true, true] ∧
    flapping.result 4 = .ok (.ok (.stable (some (.bool true)))) := by
  have habsent : flapping.start.counters.get? flapping.tally = none := rfl
  obtain ⟨-, hcounts, -⟩ := counts_favourable_verdicts flapping habsent 4
  exact ⟨habsent, rfl, hcounts.result⟩

end Polling

end Lifecycle
