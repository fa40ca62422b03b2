import Lifecycle.Proofs.Cluster.Fulfillment
import Lifecycle.Proofs.Families
import Lifecycle.Proofs.Removals
import Lifecycle.Proofs.Waits

/-!
# Waiting for the removal of a policy to settle

A deletion waits in place before it asks for the removal of the cluster, if the policy of
the cluster was removed in the course of the operation. The wait is not bound to the pass
that removed the policy: it comes before every request for the removal of the cluster, also
before one that is sent again in a later pass (`settles_on_removal_iff`).
-/

namespace Lifecycle.Cluster

open Json ProgressRecord Chain

/-- Whether the removal of the policy is accepted in a journal. -/
def removedPolicy (j : Journal) : Bool := j.exchanges.any (accepts "DeleteResourcePolicy")

/-- How often a journal asks for the removal of the cluster. -/
def deletions (j : Journal) : Nat :=
  j.exchanges.countP fun exchange => isFor "DeleteCluster" exchange.call

/-- The waits in place that so many requests for the removal of the cluster take. -/
def waitsFor (s : Settings) (removed : Bool) (requests : Nat) : List UInt64 :=
  if removed && s.settle != 0 then List.replicate requests s.settle else []

@[simp] theorem removedPolicy_append (past gained : Journal) :
    removedPolicy (past ++ gained) = (removedPolicy past || removedPolicy gained) := by
  simp [removedPolicy, Journal.exchanges_append]

@[simp] theorem deletions_append (past gained : Journal) :
    deletions (past ++ gained) = deletions past + deletions gained := by
  simp [deletions, Journal.exchanges_append]

@[simp] theorem waitsFor_zero (s : Settings) (removed : Bool) : waitsFor s removed 0 = [] := by
  simp [waitsFor]

@[simp] theorem waitsFor_false (s : Settings) (requests : Nat) : waitsFor s false requests = [] :=
  rfl

/-- More requests take more waits. -/
theorem waitsFor_add (s : Settings) (removed : Bool) (a b : Nat) :
    waitsFor s removed (a + b) = waitsFor s removed a ++ waitsFor s removed b := by
  unfold waitsFor
  split
  · exact List.replicate_add _ _ _
  · rfl

variable {s : Settings} {scope : ResourceScope} {target : Target Cluster} {remote : Remote}
  {faults : FaultTable} {config : ChainConfig} {r r' : ProgressRecord Cluster} {past gained : Journal}
  {identifier : String}
  {result : Except Defect (Except (Outcome Cluster) (ProgressRecord Cluster))}

section Visits

/-- A visit to the removal of the policy asks for nothing else. -/
theorem isFor_of_visits_policy
    (h : Visited faults config remote target Step.deleteResourcePolicy r past result gained) :
    ∀ exchange ∈ gained.exchanges, isFor "DeleteResourcePolicy" exchange.call = true := by
  intro exchange hexchange
  obtain ⟨purpose, hentry⟩ := Journal.mem_exchanges.mp hexchange
  rcases (h.calls hentry rfl).request_or_look with ⟨request, _, hcall, hrequest⟩ | ⟨_, _, _, _, hlooks⟩
  · obtain ⟨_, _, rfl⟩ := exists_eq_of_bind hrequest
    rw [hcall]
    rfl
  · cases hlooks

/-- A visit to the removal of the policy does not ask for that of the cluster, and does not wait. -/
theorem deletions_of_visits_policy
    (h : Visited faults config remote target Step.deleteResourcePolicy r past result gained) :
    deletions gained = 0 ∧ gained.waits = [] := by
  constructor
  · refine List.countP_eq_zero.mpr fun exchange hexchange hfor => ?_
    have hpolicy := isFor_of_visits_policy h exchange hexchange
    obtain ⟨call, answer⟩ := exchange
    cases call with
    | describe => cases hfor
    | invoke request => exact absurd ((eq_of_beq hpolicy).symm.trans (eq_of_beq hfor)) (by decide)
  · rw [h.waits]
    split <;> rfl

/-- The removal of the policy is accepted in a visit when its request is. -/
theorem removedPolicy_iff
    (h : Visited faults config remote target Step.deleteResourcePolicy r past result gained) :
    removedPolicy gained = true ↔
      ∃ request response, sent Step.deleteResourcePolicy request (.ok response) ∈ gained := by
  rw [removedPolicy, List.any_eq_true]
  constructor
  · rintro ⟨⟨call, answer⟩, hexchange, haccepts⟩
    obtain ⟨purpose, hentry⟩ := Journal.mem_exchanges.mp hexchange
    obtain ⟨_, hok⟩ := Bool.and_eq_true_iff.mp haccepts
    cases answer with
    | error => cases hok
    | ok response =>
      rcases (h.calls hentry rfl).request_or_look with ⟨request, rfl, hcall, _⟩ | ⟨_, _, _, _, hlooks⟩
      · obtain rfl : call = _ := hcall
        exact ⟨request, response, hentry⟩
      · cases hlooks
  · rintro ⟨request, response, hsent⟩
    have hexchange := Journal.mem_exchanges.mpr ⟨_, hsent⟩
    refine ⟨_, hexchange, Bool.and_eq_true_iff.mpr ⟨?_, rfl⟩⟩
    exact isFor_of_visits_policy h _ hexchange

/-- After a visit to the removal of the policy the request is marked as accepted when it is, in this
visit or before. -/
theorem isInvoked_of_visits_policy
    (h : Visited faults config remote target Step.deleteResourcePolicy r past result gained)
    (hkeeps : Step.deleteResourcePolicy.KeepsMarks) (hleft : recordLeft? result = some r') :
    r'.isInvoked Step.deleteResourcePolicy.name =
      (r.isInvoked Step.deleteResourcePolicy.name || removedPolicy gained) := by
  rw [Bool.eq_iff_iff, Bool.or_eq_true, removedPolicy_iff h]
  constructor
  · exact h.sent_of_isInvoked hleft
  · rintro (hold | ⟨request, response, hsent⟩)
    · exact (h.marks hkeeps hleft).kept _ hold
    · exact h.isInvoked_of_sent hkeeps hleft hsent

/-- The wait that comes before a request for the removal of the cluster. -/
theorem settle_deleteCluster : ((Step.deleteCluster s.settle).settle r).toList =
    waitsFor s (r.isInvoked Step.deleteResourcePolicy.name) 1 := by
  change Option.toList (if (r.isInvoked Step.deleteResourcePolicyName && s.settle != 0) = true then
    some s.settle else none) =
      if (r.isInvoked Step.deleteResourcePolicyName && s.settle != 0) = true then [s.settle] else []
  split <;> rfl

variable (hid : target.desired.clusterIdentifier = some identifier)
include hid

/-- A visit to the removal of the cluster asks for it once, unless that was accepted before. It does
not ask for the removal of the policy. -/
theorem deletions_of_visits_cluster
    (h : Visited faults config remote target (Step.deleteCluster s.settle) r past result gained) :
    deletions gained = (if r.isInvoked (Step.deleteCluster s.settle).name then 0 else 1) ∧
      removedPolicy gained = false := by
  have hrequest : (Step.deleteCluster s.settle).request target r = .ok (deleteRequest identifier) := by
    simp only [Step.deleteCluster, id_eq_ok hid]
    rfl
  obtain ⟨first, looks, hgained, hfirst, hlooks⟩ := h.exists_exchanges hrequest
  have hlook : ∀ look ∈ looks, ∃ id, look.call = .describe id := by
    intro look hmem
    obtain ⟨_, l, hdeclared, hcall⟩ := hlooks look hmem
    obtain ⟨_, _, rfl⟩ := exists_eq_of_bind (eq_ok_of_map_some hdeclared)
    exact ⟨_, hcall⟩
  have hnone : ∀ operation, ∀ look ∈ looks, isFor operation look.call = false := by
    intro operation look hmem
    obtain ⟨_, hcall⟩ := hlook look hmem
    rw [hcall]
    rfl
  have hzero : looks.countP (fun exchange => isFor "DeleteCluster" exchange.call) = 0 :=
    List.countP_eq_zero.mpr fun look hmem => by simp [hnone _ look hmem]
  have hany : looks.any (accepts "DeleteResourcePolicy") = false :=
    List.any_eq_false.mpr fun look hmem => by simp [accepts, hnone _ look hmem]
  rw [deletions, removedPolicy, hgained, List.countP_append, List.any_append, hzero, hany]
  rw [Requests] at hfirst
  split at hfirst
  · next hinvoked =>
    rw [if_pos hinvoked, hfirst]
    exact ⟨rfl, rfl⟩
  · next hnew =>
    obtain ⟨answer, rfl⟩ := hfirst
    rw [if_neg hnew]
    exact ⟨rfl, rfl⟩

/-- A visit to the removal of the cluster waits as often as it asks for it, if the removal of the
policy is marked as accepted. -/
theorem waits_of_visits_cluster
    (h : Visited faults config remote target (Step.deleteCluster s.settle) r past result gained) :
    gained.waits =
      waitsFor s (r.isInvoked Step.deleteResourcePolicy.name) (deletions gained) := by
  rw [h.waits, (deletions_of_visits_cluster hid h).1]
  split
  · rw [waitsFor_zero]
  · exact settle_deleteCluster

end Visits

section Walks

/-- The two steps of a deletion have names of their own. -/
theorem policy_ne_cluster : (Step.deleteResourcePolicy).name ≠ (Step.deleteCluster s.settle).name :=
  show "delete-resource-policy" ≠ "delete-cluster" by decide

/-- A deletion has two steps. -/
theorem mem_steps_deleteChain {step : Step Cluster} : step ∈ (deleteChain s).steps ↔
    step = Step.deleteResourcePolicy ∨ step = Step.deleteCluster s.settle := by
  simp [deleteChain]

/-- A visit to a step of a deletion asks for the removal of the cluster only if that is the step,
and at most once, and for that of the policy only if that is the step. -/
theorem deletions_le_of_visits (hid : target.desired.clusterIdentifier = some identifier)
    {step : Step Cluster} (hstep : step ∈ (deleteChain s).steps)
    (h : Visited faults config remote target step r past result gained) :
    deletions gained ≤ (if step.name == "delete-cluster" then 1 else 0) ∧
      (removedPolicy gained = true → step = Step.deleteResourcePolicy) := by
  rcases mem_steps_deleteChain.mp hstep with rfl | rfl
  · rw [(deletions_of_visits_policy h).1]
    exact ⟨Nat.zero_le _, fun _ => rfl⟩
  · obtain ⟨hasks, hnone⟩ := deletions_of_visits_cluster hid h
    rw [hasks, hnone]
    refine ⟨?_, nofun⟩
    split
    · exact Nat.zero_le _
    · exact Nat.le_refl 1

/-- A walk over steps of a deletion asks for the removal of the cluster at most as often as there is
a step for it, and for that of the policy only if there is one for that. -/
theorem deletions_le_of_walked (hid : target.desired.clusterIdentifier = some identifier)
    {steps : List (Step Cluster)} (hsteps : steps ⊆ (deleteChain s).steps)
    {result : Except Defect (Outcome Cluster)}
    (h : Walked faults config remote target steps r past result gained) :
    deletions gained ≤ steps.countP (·.name == "delete-cluster") ∧
      (removedPolicy gained = true → Step.deleteResourcePolicy ∈ steps) := by
  induction h with
  | finished => exact ⟨Nat.zero_le _, nofun⟩
  | passedOver _ _ ih =>
    obtain ⟨hle, hmem⟩ := ih (List.cons_subset.mp hsteps).2
    rw [List.countP_cons]
    exact ⟨Nat.le_add_right_of_le hle, fun hremoved => List.mem_cons_of_mem _ (hmem hremoved)⟩
  | completed _ hvisit _ ih =>
    obtain ⟨hstep, hrest⟩ := List.cons_subset.mp hsteps
    obtain ⟨hle, hmem⟩ := ih hrest
    obtain ⟨hone, hown⟩ := deletions_le_of_visits hid hstep (visited_of_run_append hvisit)
    rw [List.countP_cons, deletions_append, removedPolicy_append, Bool.or_eq_true]
    refine ⟨by omega, ?_⟩
    rintro (hremoved | hremoved)
    · exact hown hremoved ▸ List.mem_cons_self
    · exact List.mem_cons_of_mem _ (hmem hremoved)
  | stopped _ hvisit | broke _ hvisit =>
    obtain ⟨hone, hown⟩ := deletions_le_of_visits hid (List.cons_subset.mp hsteps).1
      (visited_of_run_append hvisit)
    rw [List.countP_cons]
    exact ⟨Nat.le_add_left_of_le hone, fun hremoved => hown hremoved ▸ List.mem_cons_self⟩

end Walks

section Runs

variable {run : Run Cluster} {n : Nat} {step : Step Cluster} {rest : List (Step Cluster)}

/-- What a journal of a deletion has to do with the record, wherever the run gets to. -/
structure Ledger (s : Settings) (run : Run Cluster) (r : ProgressRecord Cluster) (past : Journal) :
    Prop where
  /-- The removal of the policy is marked as accepted when it is. -/
  removed : r.isInvoked Step.deleteResourcePolicy.name = removedPolicy past
  /-- The removal of the cluster is marked as accepted only if it was asked for. -/
  asked : r.isInvoked (Step.deleteCluster s.settle).name = true → 0 < deletions past
  /-- Once it was asked for, no pass takes up the removal of the policy any more. -/
  settled : 0 < deletions past → r.isDone Step.deleteResourcePolicy.name = true ∨
    run.Verdict Step.deleteResourcePolicy false
  /-- There is a wait for each request, if the policy was removed. -/
  waits : past.waits = waitsFor s (removedPolicy past) (deletions past)

/-- Once the removal of the cluster was asked for, the removal of the policy is not taken up. -/
theorem Ledger.deletions_eq_zero (h : Ledger s run r past)
    (harrives : run.Arrives n (Step.deleteResourcePolicy :: rest) r past)
    (htakes : takesUp (run.targets n) Step.deleteResourcePolicy r = true) : deletions past = 0 := by
  by_contra hasked
  rcases h.settled (Nat.pos_of_ne_zero hasked) with hdone | hverdict
  · simp [takesUp, hdone] at htakes
  · cases hverdict.eq_true harrives htakes

variable (hrun : (family s scope).CarriesOut .delete target run)
include hrun

/-- A deletion gets to one of its steps. -/
theorem eq_or_eq_of_arrives (harrives : run.Arrives n (step :: rest) r past) :
    step = Step.deleteResourcePolicy ∧ rest = [Step.deleteCluster s.settle] ∨
      step = Step.deleteCluster s.settle ∧ rest = [] := by
  have hchain : deleteChain s = run.chain := Option.some.inj hrun.chain
  obtain ⟨front, hfront⟩ := harrives.exists_front
  rw [← hchain] at hfront
  cases front with
  | nil =>
    obtain ⟨rfl, rfl⟩ := List.cons.inj hfront
    exact .inl ⟨rfl, rfl⟩
  | cons first more =>
    obtain ⟨_, hmore⟩ := List.cons.inj hfront
    cases more with
    | nil =>
      obtain ⟨rfl, rfl⟩ := List.cons.inj hmore
      exact .inr ⟨rfl, rfl⟩
    | cons => simp at hmore

variable (hid : target.desired.clusterIdentifier = some identifier)
include hid

/-- A visit leaves a wait for each request, if the policy was removed. -/
theorem Ledger.waits_of_visits (h : Ledger s run r past)
    (harrives : run.Arrives n (step :: rest) r past)
    (htakes : takesUp (run.targets n) step r = true)
    (hvisited : run.Visits n step r past result gained) :
    (past ++ gained).waits =
      waitsFor s (removedPolicy (past ++ gained)) (deletions (past ++ gained)) := by
  rw [Run.Visits, hrun.targets] at hvisited
  rw [Journal.waits_append, removedPolicy_append, deletions_append, h.waits]
  rcases eq_or_eq_of_arrives hrun harrives with ⟨rfl, _⟩ | ⟨rfl, _⟩
  · obtain ⟨hnone, hwaits⟩ := deletions_of_visits_policy hvisited
    rw [hnone, hwaits, h.deletions_eq_zero harrives htakes, waitsFor_zero, List.append_nil,
      waitsFor_zero]
  · rw [waits_of_visits_cluster hid hvisited, (deletions_of_visits_cluster hid hvisited).2,
      Bool.or_false, waitsFor_add, h.removed]

/-- After a visit to the removal of the cluster it was asked for. -/
theorem Ledger.asked_of_visits (h : Ledger s run r past)
    (hvisited : run.Visits n (Step.deleteCluster s.settle) r past result gained) :
    0 < deletions (past ++ gained) := by
  rw [Run.Visits, hrun.targets] at hvisited
  rw [deletions_append, (deletions_of_visits_cluster hid hvisited).1]
  split
  · next hinvoked => exact Nat.lt_add_right 0 (h.asked hinvoked)
  · exact Nat.succ_pos _

/-- A visit to one of the steps leaves the ledger in order. -/
theorem Ledger.of_visits (h : Ledger s run r past) (harrives : run.Arrives n (step :: rest) r past)
    (htakes : takesUp (run.targets n) step r = true)
    (hvisited : run.Visits n step r past result gained) (hleft : recordLeft? result = some r') :
    Ledger s run r' (past ++ gained) := by
  have hkeeps := keepsMarks_run hrun
  have hnames := namesApart hrun.chain
  have hchain : deleteChain s = run.chain := Option.some.inj hrun.chain
  have hpolicy : Step.deleteResourcePolicy ∈ run.chain.steps :=
    hchain ▸ mem_steps_deleteChain.mpr (.inl rfl)
  have hcluster : Step.deleteCluster s.settle ∈ run.chain.steps :=
    hchain ▸ mem_steps_deleteChain.mpr (.inr rfl)
  have hmarks := hvisited.marks (hkeeps step harrives.mem) hleft
  have hapart := policy_ne_cluster (s := s)
  have hwaits := h.waits_of_visits hrun hid harrives htakes hvisited
  rcases eq_or_eq_of_arrives hrun harrives with ⟨rfl, _⟩ | ⟨rfl, hlast⟩
  · rw [Run.Visits, hrun.targets] at hvisited
    have hnone := (deletions_of_visits_policy hvisited).1
    have hflag := hmarks.flag_eq (hnames.invoked_ne hcluster hpolicy hapart.symm)
    refine ⟨?_, ?_, ?_, hwaits⟩
    · rw [isInvoked_of_visits_policy hvisited (hkeeps _ hpolicy) hleft, h.removed,
        removedPolicy_append]
    · rw [deletions_append, hnone, Nat.add_zero]
      exact fun hinvoked => h.asked (hflag.symm.trans hinvoked)
    · rw [deletions_append, hnone, Nat.add_zero]
      exact fun hasked => (h.settled hasked).imp_left (hmarks.kept _)
  · have hasked := h.asked_of_visits hrun hid hvisited
    rw [Run.Visits, hrun.targets] at hvisited
    have hnone := (deletions_of_visits_cluster hid hvisited).2
    have hflag := hmarks.flag_eq (hnames.invoked_ne hpolicy hcluster hapart)
    refine ⟨?_, fun _ => hasked, ?_, hwaits⟩
    · rw [removedPolicy_append, hnone, Bool.or_false, ← h.removed]
      exact hflag
    · -- A pass gets here only past the removal of the policy.
      intro _
      obtain ⟨verdict, hverdict⟩ := exists_verdict_delete hrun
      cases verdict with
      | false => exact .inr hverdict
      | true =>
        obtain ⟨front, hfront⟩ := harrives.exists_front
        have hmem : Step.deleteResourcePolicy ∈ front := by
          rw [hfront, hlast, List.mem_append, List.mem_singleton] at hpolicy
          exact hpolicy.resolve_right fun heq => hapart (congrArg (·.name) heq)
        exact .inl (hmarks.kept _ (harrives.isDone_of_mem_front hkeeps hverdict hfront hmem))

/-- Wherever a deletion gets to, its ledger is in order. -/
theorem ledger_of_arrives {steps : List (Step Cluster)} (harrives : run.Arrives n steps r past) :
    Ledger s run r past := by
  refine harrives.invariant (I := Ledger s run) ?_ ?_ ?_
  · refine ⟨?_, ?_, fun hasked => absurd hasked (Nat.lt_irrefl 0), (waitsFor_zero _ _).symm⟩
    · rw [isInvoked, flag_seed, hrun.start]
      rfl
    · rw [isInvoked, flag_seed, hrun.start]
      exact fun hinvoked => absurd hinvoked Bool.false_ne_true
  · intro n r past h
    exact ⟨(congrFun (flag_seed _ r) _).trans h.removed,
      fun hinvoked => h.asked ((congrFun (flag_seed _ r) _).symm.trans hinvoked),
      fun hasked => (h.settled hasked).imp_left (congrFun (flag_seed _ r) _).trans, h.waits⟩
  · intro n step rest r r' past result gained harrives htakes hvisited hleft h
    exact h.of_visits hrun hid harrives htakes hvisited hleft

/-- The journal with which a pass ends has a wait for each request, if the policy was removed. -/
theorem waits_of_ends {result : Except Defect (Outcome Cluster)} {journal : Journal}
    (hends : run.Ends n result journal) :
    journal.waits = waitsFor s (removedPolicy journal) (deletions journal) := by
  cases hends with
  | finished harrives => exact (ledger_of_arrives hrun hid harrives).waits
  | stopped harrives htakes hvisit | broke harrives htakes hvisit =>
    obtain ⟨gained, rfl, hvisited⟩ := visited_of_run hvisit
    exact (ledger_of_arrives hrun hid harrives).waits_of_visits hrun hid harrives htakes hvisited

/-- Once the policy is removed, a visit leaves the removal of the cluster asked for, or completes
the step before it. -/
theorem asked_of_visits (harrives : run.Arrives n (step :: rest) r past)
    (hvisited : run.Visits n step r past result gained)
    (hpast : removedPolicy past = true → 0 < deletions past ∨
      step :: rest = [Step.deleteCluster s.settle])
    (hremoved : removedPolicy (past ++ gained) = true) :
    0 < deletions (past ++ gained) ∨
      (∃ r', result = .ok (.ok r')) ∧ rest = [Step.deleteCluster s.settle] := by
  rcases eq_or_eq_of_arrives hrun harrives with ⟨rfl, rfl⟩ | ⟨rfl, _⟩
  · rw [removedPolicy_append, Bool.or_eq_true] at hremoved
    rcases hremoved with hbefore | hnow
    · have hasked := (hpast hbefore).resolve_right (by simp)
      rw [deletions_append]
      exact .inl (Nat.lt_add_right _ hasked)
    · -- The step is complete as soon as its request is accepted.
      obtain ⟨request, response, hsent⟩ := (removedPolicy_iff hvisited).mp hnow
      exact .inr ⟨⟨_, (hvisited.eq_completed (fun _ => rfl) (fun _ _ => rfl) hsent).2⟩, rfl⟩
  · exact .inl ((ledger_of_arrives hrun hid harrives).asked_of_visits hrun hid hvisited)

/-- Once the policy is removed, a visit that does not complete its step leaves the removal of the
cluster asked for. -/
theorem asked_of_visits_open (harrives : run.Arrives n (step :: rest) r past)
    (hvisited : run.Visits n step r past result gained)
    (hpast : removedPolicy past = true → 0 < deletions past ∨
      step :: rest = [Step.deleteCluster s.settle])
    (hopen : ∀ r', result ≠ .ok (.ok r')) (hremoved : removedPolicy (past ++ gained) = true) :
    0 < deletions (past ++ gained) :=
  (asked_of_visits hrun hid harrives hvisited hpast hremoved).resolve_right
    fun ⟨⟨r', hresult⟩, _⟩ => hopen r' hresult

/-- Once the policy is removed, the removal of the cluster is asked for, at the latest as the next
thing in the pass. -/
theorem asked_of_removed {steps : List (Step Cluster)} (harrives : run.Arrives n steps r past)
    (hremoved : removedPolicy past = true) :
    0 < deletions past ∨ steps = [Step.deleteCluster s.settle] := by
  induction harrives with
  | start => cases hremoved
  | passedOver harrives hover ih =>
    rcases eq_or_eq_of_arrives hrun harrives with ⟨rfl, rfl⟩ | ⟨rfl, _⟩
    · exact .inr rfl
    · have hopen := (removal hid hrun).isDone_eq_false harrives (List.cons_ne_nil _ _)
      rw [takesUp, hopen] at hover
      cases hover
  | completed harrives _ hvisit ih =>
    obtain ⟨gained, rfl, hvisited⟩ := visited_of_run hvisit
    exact (asked_of_visits hrun hid harrives hvisited ih hremoved).imp_right (·.2)
  | resumed harrives _ hvisit ih =>
    obtain ⟨gained, rfl, hvisited⟩ := visited_of_run hvisit
    exact .inl (asked_of_visits_open hrun hid harrives hvisited ih (by simp) hremoved)

/-- When a pass ends and the policy is removed, the removal of the cluster was asked for. -/
theorem asked_of_ends {result : Except Defect (Outcome Cluster)} {journal : Journal}
    (hends : run.Ends n result journal) (hremoved : removedPolicy journal = true) :
    0 < deletions journal := by
  cases hends with
  | finished harrives =>
    exact (asked_of_removed hrun hid harrives hremoved).resolve_right (by simp)
  | stopped harrives _ hvisit | broke harrives _ hvisit =>
    obtain ⟨gained, rfl, hvisited⟩ := visited_of_run hvisit
    exact asked_of_visits_open hrun hid harrives hvisited (asked_of_removed hrun hid harrives) (by simp)
      hremoved

variable {steps : List (Step Cluster)} {passResult : Except Defect (Outcome Cluster)}
  (harrives : run.Arrives n run.chain.steps r past)
  (hwalked : Walked run.faults run.chain.config run.remote (run.targets n) run.chain.steps r past
    passResult gained)
include harrives hwalked

/-- A pass asks for the removal of the cluster at most once. It removes the policy only if no pass
before asked for the removal of the cluster. -/
theorem deletions_le_one_of_pass :
    deletions gained ≤ 1 ∧ (removedPolicy gained = true → deletions past = 0) := by
  have hchain : deleteChain s = run.chain := Option.some.inj hrun.chain
  have hledger := ledger_of_arrives hrun hid harrives
  rw [hrun.targets] at hwalked
  rw [← hchain] at hwalked harrives
  constructor
  · exact (deletions_le_of_walked hid (List.Subset.refl _) hwalked).1
  · intro hremoved
    cases htakes : takesUp (run.targets n) Step.deleteResourcePolicy r with
    | true => exact hledger.deletions_eq_zero harrives htakes
    | false =>
      rw [hrun.targets] at htakes
      cases hwalked with
      | passedOver _ hrest =>
        have hmem :=
          (deletions_le_of_walked hid (List.subset_cons_self _ _) hrest).2 hremoved
        exact absurd (congrArg (·.name) (List.mem_singleton.mp hmem)) policy_ne_cluster
      | completed hopen | stopped hopen | broke hopen => cases htakes.symm.trans hopen

/-- A pass waits when it asks for the removal of the cluster, if the policy was removed by then. -/
theorem waits_of_pass :
    gained.waits = waitsFor s (removedPolicy (past ++ gained)) (deletions gained) := by
  have hends := waits_of_ends hrun hid (harrives.ends_of_walked hwalked)
  have hpast : past.waits = waitsFor s (removedPolicy (past ++ gained)) (deletions past) := by
    rw [(ledger_of_arrives hrun hid harrives).waits, removedPolicy_append]
    cases hremoved : removedPolicy gained with
    | false => rw [Bool.or_false]
    | true =>
      rw [(deletions_le_one_of_pass hrun hid harrives hwalked).2 hremoved, waitsFor_zero,
        waitsFor_zero]
  rw [deletions_append, waitsFor_add, Journal.waits_append, hpast] at hends
  exact List.append_cancel_left hends

end Runs

/-- How a pass of a deletion waits in place, after the passes before it. -/
structure PassSettles (s : Settings) (before pass : Journal) : Prop where
  /-- It asks for the removal of the cluster at most once. -/
  once : deletions pass ≤ 1
  /-- It waits when it asks, if the policy was removed by then. -/
  waits : pass.waits = waitsFor s (removedPolicy (before ++ pass)) (deletions pass)
  /-- If it removes the policy, it goes on to ask for the removal of the cluster, as the first pass
  to do so. -/
  first : removedPolicy pass = true → deletions before = 0 ∧ deletions pass = 1
  /-- If a pass before it removed the policy, the removal of the cluster was asked for before. -/
  again : removedPolicy before = true → 0 < deletions before

/-- The waits of a deletion belong to the pass that removes the policy: that pass waits once, as
set, and no other pass waits, so that there is at most one wait. -/
structure SettlesOnRemoval (s : Settings) (passes : List Journal) : Prop where
  /-- A pass waits if it removes the policy, and only then. -/
  own : ∀ pass ∈ passes, pass.waits = waitsFor s (removedPolicy pass) 1
  /-- There is at most one wait. -/
  once : (Journal.waits passes.flatten).length ≤ 1

/-- The wait of a pass belongs to it if, once the policy is removed, there is no more than one
request for the removal of the cluster. -/
theorem PassSettles.waits_eq {before pass : Journal} (h : PassSettles s before pass)
    (hfew : removedPolicy (before ++ pass) = true → deletions before + deletions pass ≤ 1) :
    pass.waits = waitsFor s (removedPolicy pass) 1 := by
  rw [h.waits, removedPolicy_append]
  rw [removedPolicy_append] at hfew
  cases hpass : removedPolicy pass with
  | true => rw [(h.first hpass).2, Bool.or_true]
  | false =>
    rw [Bool.or_false]
    cases hbefore : removedPolicy before with
    | false => rfl
    | true =>
      have hasked := h.again hbefore
      have htotal := hfew (by rw [hbefore, Bool.true_or])
      have hzero : deletions pass = 0 := by omega
      rw [hzero, waitsFor_zero, waitsFor_false]

/-- The waits belong to the pass that removes the policy unless the removal of the cluster is asked
for again. -/
theorem settlesOnRemoval_iff {passes : List Journal}
    (hpasses : ∀ before pass after, passes = before ++ pass :: after →
      PassSettles s before.flatten pass)
    (htotal : Journal.waits passes.flatten =
      waitsFor s (removedPolicy passes.flatten) (deletions passes.flatten)) :
    SettlesOnRemoval s passes ↔ s.settle = 0 ∨ removedPolicy passes.flatten = false ∨
      deletions passes.flatten ≤ 1 := by
  have hlength : (Journal.waits passes.flatten).length ≤ 1 ↔ s.settle = 0 ∨
      removedPolicy passes.flatten = false ∨ deletions passes.flatten ≤ 1 := by
    rw [htotal, waitsFor]
    by_cases hzero : s.settle = 0
    · simp [hzero]
    · cases removedPolicy passes.flatten <;> simp [hzero]
  refine ⟨fun h => hlength.mp h.once, fun h => ⟨?_, hlength.mpr h⟩⟩
  intro pass hmem
  obtain ⟨before, after, hsplit⟩ := List.append_of_mem hmem
  have hpass := hpasses before pass after hsplit
  have hall : passes.flatten = before.flatten ++ pass ++ after.flatten := by simp [hsplit]
  rw [hall, removedPolicy_append, deletions_append, deletions_append] at h
  rcases h with hzero | hnone | hfew
  · simp [hpass.waits, waitsFor, hzero]
  · refine hpass.waits_eq fun hremoved => ?_
    rw [hremoved] at hnone
    cases hnone
  · exact hpass.waits_eq fun _ => Nat.le_trans (Nat.le_add_right _ _) hfew

/-- The journals of the passes of a request. -/
def passJournals (f : Family Cluster) (remote : Remote) (request : HandlerRequest Cluster)
    (limit : Nat) : List Journal :=
  (f.invocations remote request limit request.progress []).map (·.journal)

/-- The journal of a request is that of all its passes. -/
theorem flatten_passJournals (f : Family Cluster) (remote : Remote)
    (request : HandlerRequest Cluster) (limit : Nat) :
    (passJournals f remote request limit).flatten = f.journal remote request limit :=
  List.flatMap_def.symm

section Requests

variable {request : HandlerRequest Cluster} {desired : Cluster} (scope : ResourceScope)
  (remote : Remote) (limit : Nat) (hdelete : request.operation = .delete)
  (hdesired : request.desired = some desired) (hprogress : request.progress = none)
include hdelete hdesired hprogress

/-- A deletion that is not turned away is a run toward a cluster with an identifier. -/
theorem deletion_cases :
    (∀ pass ∈ passJournals (family s scope) remote request limit, pass = []) ∨
      ∃ target run identifier, (family s scope).CarriesOut .delete target run ∧
        target.desired.clusterIdentifier = some identifier ∧
        (family s scope).Follows remote request limit run := by
  have hlist : request.operation ≠ .list := by simp [hdelete]
  rcases Family.refused_or_exists_run hlist hdesired hprogress remote limit with
    hrefused | ⟨run, hrun, hrefusal, hfollows⟩
  · left
    intro pass hpass
    obtain ⟨invocation, hmem, rfl⟩ := List.mem_map.mp hpass
    obtain ⟨message, rfl⟩ := hrefused invocation hmem
    rfl
  · right
    rw [hdelete] at hrun
    obtain ⟨identifier, hid⟩ := Option.isSome_iff_exists.mp (isSome_of_refusal hrefusal)
    exact ⟨_, run, identifier, hrun, hid, hfollows⟩

/-- Each pass of a deletion waits when it asks for the removal of the cluster, if the policy was
removed by then. -/
theorem passSettles : ∀ before pass after,
    passJournals (family s scope) remote request limit = before ++ pass :: after →
      PassSettles s before.flatten pass := by
  intro before pass after hsplit
  rcases deletion_cases scope remote limit hdelete hdesired hprogress with
    hnone | ⟨target, run, identifier, hrun, hid, hfollows⟩
  · rw [hsplit, List.forall_mem_append, List.forall_mem_cons] at hnone
    obtain ⟨hbefore, rfl, -⟩ := hnone
    rw [List.flatten_eq_nil_iff.mpr hbefore]
    exact ⟨Nat.zero_le _, (waitsFor_zero _ _).symm, nofun, nofun⟩
  · obtain ⟨earlier, others, hsplit', rfl, hothers⟩ := List.map_eq_append_iff.mp hsplit
    obtain ⟨invocation, later, rfl, rfl, -⟩ := List.map_eq_cons_iff.mp hothers
    obtain ⟨reports, report, _, hreports, hbefore, rfl⟩ := hfollows.exists_report hsplit'
    obtain ⟨r, harrives, hwalked⟩ := Run.walked_of_passes hreports
    rw [← List.flatMap_def, ← hbefore]
    obtain ⟨honce, hfirst⟩ := deletions_le_one_of_pass hrun hid harrives hwalked
    refine ⟨honce, waits_of_pass hrun hid harrives hwalked, fun hremoved => ?_, fun hremoved => ?_⟩
    · have hasked := asked_of_ends hrun hid (harrives.ends_of_walked hwalked)
        (by rw [removedPolicy_append, hremoved, Bool.or_true])
      rw [deletions_append, hfirst hremoved, Nat.zero_add] at hasked
      exact ⟨hfirst hremoved, Nat.le_antisymm honce hasked⟩
    · have hchain : deleteChain s = run.chain := Option.some.inj hrun.chain
      refine (asked_of_removed hrun hid harrives hremoved).resolve_right fun hsteps => ?_
      rw [← hchain] at hsteps
      exact absurd (congrArg List.length hsteps) (show 2 ≠ 1 by decide)

/-- A deletion waits as often as it asks for the removal of the cluster, if it removed the
policy. -/
theorem waits_of_deletion :
    Journal.waits (passJournals (family s scope) remote request limit).flatten =
      waitsFor s (removedPolicy (passJournals (family s scope) remote request limit).flatten)
        (deletions (passJournals (family s scope) remote request limit).flatten) := by
  rcases deletion_cases scope remote limit hdelete hdesired hprogress with
    hnone | ⟨target, run, identifier, hrun, hid, hfollows⟩
  · rw [List.flatten_eq_nil_iff.mpr hnone]
    exact (waitsFor_zero _ _).symm
  · rw [flatten_passJournals, hfollows.journal_eq]
    rcases run.journal_eq_nil_or_ends limit with hnil | ⟨n, result, hends⟩
    · rw [hnil]
      exact (waitsFor_zero _ _).symm
    · exact waits_of_ends hrun hid hends

end Requests

/-- A deletion waits in place before each request for the removal of the cluster, if the policy was
removed in the course of the operation. So the wait belongs to the pass that removed the policy
exactly when the removal of the cluster is not asked for a second time. -/
theorem settles_on_removal_iff (s : Settings) (scope : ResourceScope) (remote : Remote)
    (request : HandlerRequest Cluster) (desired : Cluster) (limit : Nat)
    (hdelete : request.operation = .delete) (hdesired : request.desired = some desired)
    (hprogress : request.progress = none) :
    (∀ before pass after,
      passJournals (family s scope) remote request limit = before ++ pass :: after →
        PassSettles s before.flatten pass) ∧
    (SettlesOnRemoval s (passJournals (family s scope) remote request limit) ↔
      s.settle = 0 ∨
        removedPolicy ((family s scope).journal remote request limit) = false ∨
        deletions ((family s scope).journal remote request limit) ≤ 1) := by
  have hpasses := passSettles (s := s) scope remote limit hdelete hdesired hprogress
  have htotal := waits_of_deletion (s := s) scope remote limit hdelete hdesired hprogress
  refine ⟨hpasses, ?_⟩
  rw [← flatten_passJournals]
  exact settlesOnRemoval_iff hpasses htotal

/-- A request to delete a cluster with a policy. -/
def guardedDeletion : HandlerRequest Cluster where
  operation := .delete
  desired := some
    { clusterIdentifier := some "analytics"
      namespaceResourcePolicy := some (.object [("Version", .string "2012-10-17")])
      clusterNamespaceArn := some "arn:ns" }

/-- A service that answers requests for the removal of the cluster as given and has it gone. -/
def removing (answers : List Answer) : Remote :=
  ({ invoke := [("DeleteCluster", answers)],
     describe := [.error ⟨"ClusterNotFound", "gone", 404⟩] } : Script).remote

/-- The journals of the passes of the deletion. -/
def guardedPasses (answers : List Answer) : List Journal :=
  passJournals (family {} {}) (removing answers) guardedDeletion 3

/-- If the removal of the cluster is accepted at once, the pass that removed the policy waits, and
no other does. -/
theorem settlesOnRemoval_of_prompt : SettlesOnRemoval {} (guardedPasses [.ok (.object [])]) := by
  have hiff := (settles_on_removal_iff {} {} (removing [.ok (.object [])]) guardedDeletion _ 3 rfl rfl
    rfl).2
  exact hiff.mpr (.inr (.inr (by decide +kernel)))

/-- If it is throttled at first, the pass after also waits, although it does not remove the
policy. -/
theorem waits_again_of_throttled :
    (guardedPasses [.error ⟨"Throttling", "Rate exceeded", 400⟩, .ok (.object [])]).map
        (fun pass => (removedPolicy pass, pass.waits)) = [(true, [10]), (false, [10])] ∧
      ¬SettlesOnRemoval {}
        (guardedPasses [.error ⟨"Throttling", "Rate exceeded", 400⟩, .ok (.object [])]) :=
  ⟨by decide +kernel, fun h => absurd h.once (by decide +kernel)⟩

end Lifecycle.Cluster
