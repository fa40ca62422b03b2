import Lifecycle.Proofs.Cluster.KnownNamespace
import Lifecycle.Proofs.Verdicts

/-!
# Gates of the cluster family

All but three gates of the family look at the target alone. The other three ask whether
the namespace is known, which a run may come to know. Where a namespace becomes known,
no gate turns over: looking it up goes on until it is known, the policy is removed only
past that, and reading the policy is the last thing a chain does (`exists_verdict`).
-/

namespace Lifecycle.Cluster

open Json ProgressRecord Chain

variable {s : Settings} {scope : ResourceScope} {operation : Operation} {chain : Chain Cluster}
  {step : Step Cluster} {front rest : List (Step Cluster)}

section Order

/-- The names of the steps of each chain, in order. -/
def stepNames : Operation → List String
  | .create => ["create-cluster", "restore-from-snapshot", "create-tags", "enable-logging",
      "configure-aqua", "resolve-namespace", "put-resource-policy", "describe-cluster",
      "describe-logging-status", "get-resource-policy"]
  | .read => ["describe-cluster", "describe-logging-status", "get-resource-policy"]
  | .update => ["modify-cluster", "delete-tags", "create-tags", "disable-logging",
      "enable-logging", "configure-aqua", "resolve-namespace", "put-resource-policy",
      "delete-resource-policy", "describe-cluster", "describe-logging-status",
      "get-resource-policy"]
  | .delete => ["delete-resource-policy", "delete-cluster"]
  | .list => []

theorem map_name_steps (hchain : (family s scope).chain operation = some chain) :
    chain.steps.map (·.name) = stepNames operation := by
  cases operation with
  | list => cases hchain
  | _ =>
    obtain rfl := Option.some.inj hchain
    rfl

variable (hchain : (family s scope).chain operation = some chain)
  (hsplit : chain.steps = front ++ step :: rest)
include hchain hsplit

theorem mem_stepNames : step.name ∈ stepNames operation := by
  rw [← map_name_steps hchain, hsplit]
  exact List.mem_map.mpr ⟨step, by simp, rfl⟩

/-- No step before another one in a chain has its name. -/
theorem bne_of_mem_front : ∀ name ∈ front.map (·.name), (name != step.name) = true := by
  intro name hname
  obtain ⟨earlier, hearlier, rfl⟩ := List.mem_map.mp hname
  exact bne_iff_ne.mpr ((namesApart hchain).name_ne hsplit (.inl hearlier))

/-- What is before a step in a chain is what is before its name. -/
theorem map_name_front :
    front.map (·.name) = (stepNames operation).takeWhile (· != step.name) := by
  rw [← map_name_steps hchain, hsplit, List.map_append,
    List.takeWhile_append_of_pos (bne_of_mem_front hchain hsplit), List.map_cons,
    List.takeWhile_cons_of_neg (by simp), List.append_nil]

/-- What is from a step on in a chain is what is from its name on. -/
theorem map_name_rest :
    step.name :: rest.map (·.name) = (stepNames operation).dropWhile (· != step.name) := by
  rw [← map_name_steps hchain, hsplit, List.map_append,
    List.dropWhile_append_of_pos (bne_of_mem_front hchain hsplit), List.map_cons,
    List.dropWhile_cons_of_neg (by simp)]

/-- A step of the family is before another one in a chain if its name is. -/
theorem mem_front {earlier : Step Cluster} (hearlier : earlier ∈ steps s scope)
    (hname : earlier.name ∈ (stepNames operation).takeWhile (· != step.name)) :
    earlier ∈ front := by
  rw [← map_name_front hchain hsplit] at hname
  obtain ⟨other, hother, hsame⟩ := List.mem_map.mp hname
  have hin : other ∈ steps s scope := mem_steps_of_chain hchain (by simp [hsplit, hother])
  rwa [← eq_of_name_eq hin hearlier hsame]

end Order

/-- All gates but three look at the target alone. -/
theorem fixedGate_or : ∀ step ∈ steps s scope, step.FixedGate ∨ step = Step.resolveNamespace ∨
    step = Step.deleteResourcePolicy ∨ step = Step.getResourcePolicy := by
  apply forall_mem_steps
  case resolveNamespace => exact .inr (.inl rfl)
  case deletePolicy => exact .inr (.inr (.inl rfl))
  case getPolicy => exact .inr (.inr (.inr rfl))
  all_goals exact .inl fun _ _ _ => rfl

/-- The namespace is looked up before the policy is attached, and before it is removed unless the
cluster is. -/
theorem resolve_mem_front (hchain : (family s scope).chain operation = some chain)
    (hsplit : chain.steps = front ++ step :: rest)
    (hname : step.name = "put-resource-policy" ∨
      step.name = "delete-resource-policy" ∧ operation ≠ .delete) :
    Step.resolveNamespace ∈ front := by
  have hmem := mem_stepNames hchain hsplit
  refine mem_front hchain hsplit (by simp [steps]) ?_
  rcases hname with hname | ⟨hname, hdelete⟩
  · rw [hname] at hmem ⊢
    cases operation with
    | create | update => decide
    | read | delete | list => exact absurd hmem (by decide)
  · rw [hname] at hmem ⊢
    cases operation with
    | update => decide
    | delete => exact absurd rfl hdelete
    | create | read | list => exact absurd hmem (by decide)

/-- What comes before the namespace is looked up is judged by the target alone. -/
theorem fixedGate_of_mem_front (hchain : (family s scope).chain operation = some chain)
    (hsplit : chain.steps = front ++ Step.resolveNamespace :: rest) :
    ∀ earlier ∈ front, earlier.FixedGate := by
  intro earlier hearlier
  have hmem := mem_stepNames hchain hsplit
  have hname : earlier.name ∈ (stepNames operation).takeWhile (· != "resolve-namespace") := by
    rw [← show Step.resolveNamespace.name = "resolve-namespace" from rfl,
      ← map_name_front hchain hsplit]
    exact List.mem_map_of_mem hearlier
  rcases fixedGate_or earlier (mem_steps_of_chain hchain (by simp [hsplit, hearlier])) with
    hfixed | rfl | rfl | rfl
  · exact hfixed
  · exact absurd rfl ((namesApart hchain).name_ne hsplit (.inl hearlier))
  all_goals
    cases operation with
    | read | delete => exact absurd hmem (by decide)
    | _ => exact absurd hname (by decide)

/-- Nothing comes after the policy is read. -/
theorem rest_eq_nil (hchain : (family s scope).chain operation = some chain)
    (hsplit : chain.steps = front ++ Step.getResourcePolicy :: rest) : rest = [] := by
  have hmem := mem_stepNames hchain hsplit
  have hrest := map_name_rest hchain hsplit
  cases operation with
  | delete | list => exact absurd hmem (by decide)
  | create | read | update => exact List.map_eq_nil_iff.mp (List.cons.inj hrest).2

section Runs

variable {target : Target Cluster} {run : Run Cluster} {n n' : Nat} {r r' : ProgressRecord Cluster}
  {past past' : Journal} {rest' : List (Step Cluster)}
  (hrun : (family s scope).CarriesOut operation target run)
include hrun

/-- The steps of a run leave the marks alone. -/
theorem keepsMarks_run : ∀ step ∈ run.chain.steps, step.KeepsMarks :=
  fun step hstep => keepsMarks step (mem_steps_of_chain hrun.chain hstep)

/-- A namespace that is known stays known. -/
theorem known_of_leads {p q : Position Cluster} (hat : run.IsAt p) (hleads : run.Leads p q)
    (hknown : Known target p.record) : Known target q.record := by
  refine hleads.kept (I := Known target) (fun _ _ => known_seed.mpr) ?_ hat hknown
  intro n step r r' past result gained hstep hvisited hleft hr
  simp only [Run.Visits, hrun.targets] at hvisited
  exact known_of_visited (mem_steps_of_chain hrun.chain hstep) hvisited hleft hr

/-- Past the lookup of the namespace, no step that comes before it is taken up again. -/
theorem eq_resolve_of_takesUp (harrives : run.Arrives n (Step.resolveNamespace :: rest) r past)
    (hleads : run.Leads ⟨n, Step.resolveNamespace :: rest, r, past⟩ ⟨n', step :: rest', r', past'⟩)
    (hmem : Step.resolveNamespace ∈ step :: rest')
    (htakes : takesUp (run.targets n') step r' = true) : step = Step.resolveNamespace := by
  rcases List.mem_cons.mp hmem with hhead | hlater
  · exact hhead.symm
  · obtain ⟨front, hfront⟩ := harrives.exists_front
    obtain ⟨before, hbefore⟩ := (hleads.isAt harrives).exists_front
    obtain ⟨middle, after, rfl⟩ := List.append_of_mem hlater
    have hsplit : run.chain.steps =
        (before ++ step :: middle) ++ Step.resolveNamespace :: after := by simp [hbefore]
    obtain rfl := (namesApart hrun.chain).front_eq hfront hsplit
    have hfixed := fixedGate_of_mem_front hrun.chain hfront step (by simp)
    have hover := (Run.verdict_of_fixedGate hfixed hrun.targets r').takesUp_eq_false
      (keepsMarks_run hrun) harrives hfront (by simp) hleads
    cases hover.symm.trans htakes

/-- From where a namespace that is not known is to be looked up, it stays unknown and is still to be
looked up, until it is found. -/
theorem unknown_of_leads {q : Position Cluster}
    (harrives : run.Arrives n (Step.resolveNamespace :: rest) r past)
    (hneeds : needsNamespace target = true) (hunknown : ¬Known target r)
    (hleads : run.Leads ⟨n, Step.resolveNamespace :: rest, r, past⟩ q) :
    q.record.isDone Step.resolveNamespace.name = true ∨
      ¬Known target q.record ∧ Step.resolveNamespace ∈ q.left := by
  have hkeeps := keepsMarks_run hrun
  induction hleads with
  | refl => exact .inr ⟨hunknown, List.mem_cons_self⟩
  | tail hleads hgoes ih =>
    have hmid := Run.Leads.isAt hleads harrives
    rcases ih with hdone | ⟨hunknown, hmem⟩
    · exact .inl (Run.Leads.isDone hkeeps (.single hgoes) hmid hdone)
    · cases hgoes with
      | @passedOver _ step _ _ _ hover =>
        rcases List.mem_cons.mp hmem with rfl | hlater
        · rw [takesUp, hrun.targets, shouldRun_resolveNamespace.mpr ⟨hneeds, hunknown⟩,
            Bool.and_true, Bool.not_eq_false'] at hover
          exact .inl hover
        · exact .inr ⟨hunknown, hlater⟩
      | completed htakes hvisit =>
        obtain rfl := eq_resolve_of_takesUp hrun harrives hleads hmem htakes
        obtain ⟨gained, _, hvisited⟩ := visited_of_run hvisit
        exact .inl (hvisited.isDone_of_completed (hkeeps _ hmid.mem))
      | resumed htakes hvisit =>
        obtain rfl := eq_resolve_of_takesUp hrun harrives hleads hmem htakes
        obtain ⟨gained, _, hvisited⟩ := visited_of_run hvisit
        rw [hrun.targets] at hvisited
        exact .inr ⟨mt known_seed.mp (unknown_of_suspended hvisited rfl hunknown), harrives.mem⟩

/-- Looking the namespace up has one verdict. -/
theorem exists_verdict_resolve : ∃ verdict, run.Verdict Step.resolveNamespace verdict := by
  refine Run.exists_verdict ?_
  intro n n' rest rest' r r' past past' harrives hleads _ hopen'
  rw [hrun.targets, hrun.targets, Bool.eq_iff_iff, shouldRun_resolveNamespace,
    shouldRun_resolveNamespace, and_congr_right_iff]
  intro hneeds
  constructor
  · exact mt (known_of_leads hrun harrives hleads)
  · intro hunknown
    rcases unknown_of_leads hrun harrives hneeds hunknown hleads with hdone | ⟨hunknown', _⟩
    · cases hopen'.symm.trans hdone
    · exact hunknown'

/-- What removes a cluster does not find out its namespace. -/
theorem unknown_of_leads_delete {p q : Position Cluster} (hdelete : operation = .delete)
    (hat : run.IsAt p) (hleads : run.Leads p q) (hunknown : ¬Known target p.record) :
    ¬Known target q.record := by
  subst hdelete
  have hchain := Option.some.inj hrun.chain
  refine hleads.kept (I := fun r => ¬Known target r) (fun _ _ => mt known_seed.mp) ?_ hat hunknown
  intro n step r r' past result gained hstep hvisited hleft hr
  refine hvisited.keeps (fun _ _ hr _ hids => mt (known_congr hids).mp hr) ?_ hleft hr
  simp only [← hchain, deleteChain, List.mem_cons, List.not_mem_nil, or_false] at hstep
  rcases hstep with rfl | rfl <;> exact ⟨fun _ _ hr => hr, fun _ _ hr => hr⟩

/-- Removing the policy has one verdict, for the namespace is known when a pass gets there, or is
never found out. -/
theorem exists_verdict_delete : ∃ verdict, run.Verdict Step.deleteResourcePolicy verdict := by
  refine Run.exists_verdict ?_
  intro n n' rest rest' r r' past past' harrives hleads _ _
  rw [hrun.targets, hrun.targets, Bool.eq_iff_iff, shouldRun_deletePolicy, shouldRun_deletePolicy,
    and_congr_right_iff]
  intro hremoves
  refine ⟨?_, known_of_leads hrun harrives hleads⟩
  intro hknown'
  by_cases hdelete : operation = .delete
  · by_contra hunknown
    exact unknown_of_leads_delete hrun hdelete harrives hleads hunknown hknown'
  · obtain ⟨front, hfront⟩ := harrives.exists_front
    exact known_of_mem_front hrun (needsNamespace_of_removes hremoves) harrives hfront
      (resolve_mem_front hrun.chain hfront (.inr ⟨rfl, hdelete⟩))

/-- Reading the policy has one verdict, for a pass that skips it is over. -/
theorem exists_verdict_get : ∃ verdict, run.Verdict Step.getResourcePolicy verdict := by
  refine Run.exists_verdict ?_
  intro n n' rest rest' r r' past past' harrives hleads _ _
  rw [hrun.targets, hrun.targets, Bool.eq_iff_iff]
  refine ⟨?_, known_of_leads hrun harrives hleads⟩
  intro hknown'
  obtain ⟨front, hfront⟩ := harrives.exists_front
  obtain rfl := rest_eq_nil hrun.chain hfront
  -- A pass that has no step left is not followed by another one.
  rcases hleads.cases_head with heq | ⟨next, hgoes, hrest⟩
  · cases heq
    exact hknown'
  · cases hgoes with
    | passedOver =>
      rcases hrest.cases_head with heq | ⟨_, hnone, _⟩
      · cases heq
      · cases hnone
    | completed htakes =>
      rw [takesUp, hrun.targets, Bool.and_eq_true] at htakes
      exact htakes.2
    | resumed htakes =>
      rw [takesUp, hrun.targets, Bool.and_eq_true] at htakes
      exact htakes.2

/-- In a run of the family each step has one verdict. -/
theorem exists_verdict : ∀ step ∈ run.chain.steps, ∃ verdict, run.Verdict step verdict := by
  intro step hstep
  rcases fixedGate_or step (mem_steps_of_chain hrun.chain hstep) with hfixed | rfl | rfl | rfl
  · exact ⟨_, Run.verdict_of_fixedGate hfixed hrun.targets .empty⟩
  · exact exists_verdict_resolve hrun
  · exact exists_verdict_delete hrun
  · exact exists_verdict_get hrun

/-- A step whose request names the namespace is taken up only when the namespace is known. -/
theorem known_of_takesUp (harrives : run.Arrives n (step :: rest) r past)
    (htakes : takesUp (run.targets n) step r = true) (hpolicy : step.name ∈ policySteps) :
    Known target r := by
  have hin : ∀ other ∈ steps s scope, step.name = other.name → step = other :=
    fun _ hother hname => eq_of_name_eq (mem_steps_of_chain hrun.chain harrives.mem) hother hname
  rw [takesUp, hrun.targets, Bool.and_eq_true] at htakes
  simp only [policySteps, List.mem_cons, List.not_mem_nil, or_false] at hpolicy
  rcases hpolicy with hname | hname | hname
  · obtain rfl := hin Step.putResourcePolicy (by simp [steps]) hname
    obtain ⟨front, hfront⟩ := harrives.exists_front
    exact known_of_mem_front hrun (needsNamespace_of_put htakes.2) harrives hfront
      (resolve_mem_front hrun.chain hfront (.inl rfl))
  · obtain rfl := hin Step.deleteResourcePolicy (by simp [steps]) hname
    exact (shouldRun_deletePolicy.mp htakes.2).2
  · obtain rfl := hin Step.getResourcePolicy (by simp [steps, readBack]) hname
    exact htakes.2

/-- No pass stops at a defect, if the desired model has an identifier. -/
theorem exists_outcome {identifier : String}
    (hid : target.desired.clusterIdentifier = some identifier)
    {result : Except Defect (Outcome Cluster)} {journal : Journal}
    (hends : run.Ends n result journal) : ∃ outcome, result = .ok outcome := by
  refine hends.exists_outcome ?_
  intro n step rest r past harrives htakes
  have hstep := mem_steps_of_chain hrun.chain harrives.mem
  rw [hrun.targets]
  exact ⟨exists_request hid step hstep r (known_of_takesUp hrun harrives htakes),
    exists_stabilization hid step hstep⟩

/-- The gates of the runs of the family are stable. -/
theorem stableGates : run.StableGates :=
  Run.stableGates_of_verdicts (namesApart hrun.chain) (exists_verdict hrun)

end Runs

end Lifecycle.Cluster
