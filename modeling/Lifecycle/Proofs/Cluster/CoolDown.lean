import Lifecycle.Proofs.Cluster.NewCluster
import Lifecycle.Proofs.CoolDown
import Lifecycle.Proofs.Looks

/-!
# The cool-down of a new cluster

The step that makes a cluster asks for a cool-down once the cluster is available, and lives with no
fault. So what holds of cool-downs at large holds of it without exception: a creation that succeeds
was suspended for the cool-down once, and found the cluster available in two passes at least, the
one that began the cool-down and a later one (`cool_down_served_once`).
-/

namespace Lifecycle

open Json ProgressRecord Chain

variable {M : Type}

/-- Whether an invocation is suspended for the cool-down of a step. -/
def Invocation.coolsDown (name : String) (invocation : Invocation M) : Bool :=
  invocation.journal.any (·.coolsDown name)

namespace Cluster

/-- An invocation in which a look finds the cluster available. -/
def FindsAvailable (desired : Cluster) (invocation : Invocation Cluster) : Prop :=
  ∃ identifier state, desired.clusterIdentifier = some identifier ∧
    ⟨.describe identifier, .ok state⟩ ∈ invocation.journal.exchanges ∧ isAvailable state = true

variable {s : Settings} {scope : ResourceScope} {desired : Cluster}

/-- Only the step that makes the cluster asks for a cool-down. -/
theorem eq_creationStep_of_asks {previous : Option Cluster} : ∀ step ∈ (createChain s scope).steps,
    ∀ {r observed r' delay}, step.shouldRun ⟨desired, previous⟩ r = true →
      (step.onComplete observed r').1 = .coolDown delay → step = creationStep s desired := by
  simp only [createChain, readBack, List.cons_append, List.nil_append, List.forall_mem_cons]
  refine ⟨?create, ?restore, ?createTags, ?enableLogging, ?configureAqua, ?resolveNamespace,
    ?putPolicy, ?describe, ?describeLogging, ?getPolicy, List.forall_mem_nil _⟩
  case create =>
    intro r observed r' delay happlies _
    have hafresh : desired.isRestore = false := by simpa [Step.createCluster] using happlies
    simp [creationStep, hafresh]
  case restore =>
    intro r observed r' delay happlies _
    have hrestore : desired.isRestore = true := happlies
    simp [creationStep, hrestore]
  case resolveNamespace =>
    intro r observed r' delay _ hasks
    cases observed <;> cases hasks
  all_goals
    intro r observed r' delay _ hasks
    cases hasks

section Runs

variable {previous : Option Cluster} {run : Run Cluster} {limit : Nat}
  (hrun : (family s scope).CarriesOut .create ⟨desired, previous⟩ run)
include hrun

/-- The step that makes the cluster is one of the chain. -/
theorem creationStep_mem_chain : creationStep s desired ∈ run.chain.steps := by
  rw [← show createChain s scope = run.chain from Option.some.inj hrun.chain]
  exact creationStep_mem s scope desired

/-- A pass that finds the effect of the request for the cluster finds the cluster available. -/
theorem exists_available_of_findsStable {n : Nat} {past journal : Journal}
    (h : run.FindsStable n (creationStep s desired) past journal) :
    ∃ identifier state, desired.clusterIdentifier = some identifier ∧
      ⟨.describe identifier, .ok state⟩ ∈ journal.exchanges ∧ isAvailable state = true := by
  cases h with
  | @intro _ _ _ _ _ before first second after _ _ hstabilized =>
    rw [hrun.targets, show run.faults = faults from hrun.faults] at hstabilized
    obtain ⟨l, identifier, state, rfl, hid, hcall, havailable⟩ :=
      available_of_stabilized hstabilized
    refine ⟨identifier, state, hid, ?_, havailable⟩
    have hlook : looked (creationStep s desired) l (.ok state) ∈
        before ++ first ++ [looked (creationStep s desired) l (.ok state)] ++ after := by simp
    rw [← hcall]
    exact Journal.mem_exchanges.mpr ⟨_, hlook⟩

/-- No other step than the one that makes the cluster has a cool-down. -/
theorem coolsDown_eq_false {name : String} (hname : name ≠ (creationStep s desired).name)
    {report : PassReport Cluster} (hreport : report ∈ run.passes limit) :
    report.coolsDown name = false := by
  refine List.any_eq_false.mpr fun entry hentry hcools => ?_
  have hjournal : entry ∈ run.journal limit := List.mem_flatMap.mpr ⟨report, hreport, hentry⟩
  obtain ⟨n, step, back, r, past, harrives, htakes, rfl, observed, r', delay, hasks⟩ :=
    Run.exists_asks_of_coolsDown hjournal hcools
  rw [hrun.targets, takesUp_iff] at htakes
  have hstep : step ∈ (createChain s scope).steps := by
    rw [show createChain s scope = run.chain from Option.some.inj hrun.chain]
    exact harrives.mem
  exact hname (congrArg _ (eq_creationStep_of_asks step hstep htakes.2 hasks))

/-- The step that makes the cluster has a place in the chain, and its cool-down is served. -/
theorem exists_servesCoolDown (hcoolDown : s.coolDown ≠ 0) (limit : Nat) :
    ∃ back, run.ServesCoolDown limit (creationStep s desired) back s.coolDown := by
  obtain ⟨front, back, hsteps⟩ := List.append_of_mem (creationStep_mem_chain hrun)
  exact ⟨back, Run.servesCoolDown (namesApart hrun.chain) (keepsMarks_run hrun) hsteps
    (onComplete_creationStep hcoolDown) hrun.start limit⟩

/-- A run that succeeds has a pass that is suspended for the cool-down, and a later one that finds
the cluster available again. -/
theorem exists_suspended_before_completed (hcoolDown : s.coolDown ≠ 0) {n : Nat}
    {model : Option Cluster} (hends : run.Ends n (.ok (.success model)) (run.journal limit)) :
    ∃ first cooling between last rest,
      run.passes limit = first ++ cooling :: (between ++ last :: rest) ∧
      cooling.coolsDown (creationStep s desired).name = true ∧
      run.FindsStable first.length (creationStep s desired) (journalOf first) cooling.journal ∧
      ∃ k past, run.FindsStable k (creationStep s desired) past last.journal := by
  have hnames := namesApart hrun.chain
  have hkeeps := keepsMarks_run hrun
  have hstep := creationStep_mem_chain hrun
  have hverdict : run.Verdict (creationStep s desired) true :=
    Run.verdict_of_shouldRun fixedGate_creationStep hrun.targets shouldRun_creationStep
  obtain ⟨back, hserves⟩ := exists_servesCoolDown hrun hcoolDown limit
  obtain ⟨r, harrives⟩ := hends.exists_arrives_of_success
  have hdone := harrives.isDone_of_mem_front hkeeps hverdict (List.append_nil _).symm hstep
  have hfinished := (harrives.isDone_iff hnames hkeeps hrun.start hstep).mp hdone
  obtain ⟨entry, hentry, hown⟩ := List.mem_filterMap.mp hfinished
  obtain ⟨last, hlast, hmem⟩ := List.mem_flatMap.mp hentry
  obtain ⟨before, rest, hsplit⟩ := List.append_of_mem hlast
  rcases hserves.completed hsplit (List.mem_filterMap.mpr ⟨entry, hmem, hown⟩) with
    ⟨_, _, _, hlives⟩ | ⟨⟨cooling, hcooling, hcools⟩, hfinds⟩
  · cases (suppress_creationStep _ _).symm.trans hlives
  · obtain ⟨first, between, rfl⟩ := List.append_of_mem hcooling
    rw [List.append_assoc, List.cons_append] at hsplit
    obtain ⟨-, hstable, -⟩ := hserves.suspended hsplit hcools
    exact ⟨first, cooling, between, last, rest, hsplit, hcools, hstable, _, _, hfinds⟩

end Runs

/-- Where the names of the steps keep their marks apart and the hooks leave the marks alone, the
cool-down of a step that always asks for one is served once in a run from the empty record, and the
step is complete only after another look, unless it lives with the fault that its request meets.
So the creation of a cluster that succeeds was suspended for one cool-down, that of the step that
makes the cluster, and found the cluster available in two invocations at least. -/
theorem cool_down_served_once :
    (∀ {M : Type} (run : Run M) (front back : List (Step M)) (step : Step M) (delay : UInt64),
      run.chain.NamesApart → (∀ step ∈ run.chain.steps, step.KeepsMarks) → run.start = .empty →
      run.chain.steps = front ++ step :: back →
      (∀ observed r, (step.onComplete observed r).1 = .coolDown delay) →
      ∀ limit, run.ServesCoolDown limit step back delay) ∧
    ∀ (s : Settings) (scope : ResourceScope) (remote : Remote) (request : HandlerRequest Cluster)
      (desired : Cluster), request.operation = .create → request.desired = some desired →
      request.progress = none → s.coolDown ≠ 0 →
      ∀ limit, (family s scope).Succeeds remote request limit →
        (∀ name, ((family s scope).invocations remote request limit none []).countP
          (·.coolsDown name) = if name = (creationStep s desired).name then 1 else 0) ∧
        (∀ invocation ∈ (family s scope).invocations remote request limit none [],
          invocation.coolsDown (creationStep s desired).name = true →
            ∃ r, invocation.response = .ok (.ofOutcome (.inProgress s.coolDown r))) ∧
        ∃ first second, [first, second].Sublist
            ((family s scope).invocations remote request limit none []) ∧
          FindsAvailable desired first ∧ FindsAvailable desired second := by
  refine ⟨fun run front back step delay hnames hkeeps hstart hsteps hasks limit =>
    Run.servesCoolDown hnames hkeeps hsteps hasks hstart limit, ?_⟩
  intro s scope remote request desired hcreate hdesired hprogress hcoolDown limit hsucceeds
  rcases Family.refused_or_exists_run (f := family s scope) (by simp [hcreate]) hdesired hprogress
    remote limit with hrefused | ⟨run, hrun, -, hfollows⟩
  · obtain ⟨invocation, hinvocation, hsuccess⟩ := hsucceeds
    obtain ⟨message, rfl⟩ := hrefused invocation hinvocation
    cases hsuccess
  rw [hcreate] at hrun
  obtain ⟨n, model, hends⟩ := hfollows.exists_ends hsucceeds
  have hinvocations := hfollows
  rw [Family.Follows, hprogress] at hinvocations
  rw [hinvocations]
  obtain ⟨back, hserves⟩ := exists_servesCoolDown hrun hcoolDown limit
  obtain ⟨first, cooling, between, last, rest, hsplit, hcools, hstable, _, _, hfinds⟩ :=
    exists_suspended_before_completed hrun hcoolDown hends
  refine ⟨fun name => ?_, ?_, ?_⟩
  · rw [List.countP_map]
    split
    · next hname =>
      subst hname
      refine Nat.le_antisymm hserves.once (List.countP_pos_iff.mpr ⟨cooling, ?_, hcools⟩)
      simp [hsplit]
    · next hname =>
      refine List.countP_eq_zero.mpr fun report hreport hcools => ?_
      cases (coolsDown_eq_false hrun hname hreport).symm.trans hcools
  · intro invocation hinvocation hcools
    obtain ⟨report, hreport, rfl⟩ := List.mem_map.mp hinvocation
    obtain ⟨before, after, hreports⟩ := List.append_of_mem hreport
    obtain ⟨⟨r, hresult, -⟩, -⟩ := hserves.suspended hreports hcools
    exact ⟨r, by rw [hresult]; rfl⟩
  · have htwo : [cooling, last].Sublist (first ++ cooling :: (between ++ last :: rest)) :=
      ((List.singleton_sublist.mpr (by simp)).cons_cons cooling).trans (List.sublist_append_right _ _)
    rw [hsplit]
    exact ⟨_, _, htwo.map _, exists_available_of_findsStable hrun hstable,
      exists_available_of_findsStable hrun hfinds⟩

/-- A step that waits for the effect of its request, asks for a cool-down, and lives with it that
nothing is attached. -/
def detaching : Step Unit where
  name := "detach"
  request _ _ := .ok ⟨"Detach", .null⟩
  suppress fault _ := fault.isNotFound
  stabilization _ _ := .ok (some { probe := .describe "it" })
  isStable observation _ :=
    match observation with
    | .present (.bool detached) => detached
    | _ => false
  onComplete _ r := (.coolDown 30, r)

/-- This step and another one behind it. -/
def detachChain : Chain Unit where
  operation := "detach"
  config := {}
  steps := [detaching, { name := "tag", request := fun _ _ => .ok ⟨"Tag", .null⟩ }]

/-- A run over these steps. -/
def detachment (remote : Remote) : Run Unit where
  chain := detachChain
  faults := FaultTable.common
  remote := remote
  targets _ := { desired := () }
  start := .empty

theorem namesApart_detachChain : detachChain.NamesApart :=
  ⟨by decide +kernel, by decide +kernel, by decide +kernel⟩

theorem keepsMarks_detachChain : ∀ step ∈ detachChain.steps, step.KeepsMarks := by
  intro step hstep
  simp only [detachChain, List.mem_cons, List.not_mem_nil, or_false] at hstep
  rcases hstep with rfl | rfl <;> exact ⟨fun _ _ => rfl, fun _ _ => rfl⟩

/-- A service where the effect shows, goes away during the cool-down and shows again. -/
def flappingEffect : Remote := fun past call =>
  match call with
  | .describe _ => .ok (.bool (past.length ≠ 2))
  | .invoke _ => .ok .null

/-- The detachment whose effect goes away has one cool-down, and is complete in the third pass; the
restoration of a cluster has one, too, and finds the cluster available twice. -/
theorem detachment_and_restoration_cooled :
    (detachment flappingEffect).chain.NamesApart ∧
    ((detachment flappingEffect).passes 5).countP (·.coolsDown "detach") = 1 ∧
    (((detachment flappingEffect).passes 5)[2]?.map (·.journal.finished)) =
      some ["detach", "tag"] ∧
    ((family {} {}).invocations ({ describe := [.ok (.object
      [("ClusterStatus", .string "available")])] } : Script).remote restoration 2 none []).countP
        (·.coolsDown "restore-from-snapshot") = 1 := by
  obtain ⟨hserved, hcreated⟩ := cool_down_served_once
  have hserves := hserved (detachment flappingEffect) [] _ detaching 30 (namesApart_detachChain)
    (keepsMarks_detachChain) rfl rfl (fun _ _ => rfl) 5
  obtain ⟨honce, -⟩ := hcreated {} {}
    ({ describe := [.ok (.object [("ClusterStatus", .string "available")])] : Script }).remote
    restoration restoredCluster rfl rfl rfl (by decide) 2 (by decide +kernel)
  refine ⟨namesApart_detachChain, Nat.le_antisymm hserves.once (by decide +kernel), rfl, ?_⟩
  exact honce "restore-from-snapshot"

/-- A service where nothing is attached. -/
def nothingAttached : Remote := fun _ call =>
  match call with
  | .describe _ => .ok (.bool true)
  | .invoke ⟨"Detach", _⟩ => .error ⟨"Gone", "Nothing is attached", 404⟩
  | .invoke _ => .ok .null

/-- The detachment of what is not attached is complete in the first pass, without a cool-down and
without a look, although the step always asks for a cool-down. -/
theorem tolerated_without_cool_down :
    (detachment nothingAttached).chain.NamesApart ∧
    (∀ step ∈ (detachment nothingAttached).chain.steps, step.KeepsMarks) ∧
    (detachment nothingAttached).start = .empty ∧
    (∀ observed r, (detaching.onComplete observed r).1 = .coolDown 30) ∧
    ∃ report, (detachment nothingAttached).passes 5 = [report] ∧
      "detach" ∈ report.journal.finished ∧ report.coolsDown "detach" = false ∧
      report.journal.looks "detach" = [] := by
  refine ⟨namesApart_detachChain, keepsMarks_detachChain, rfl, fun _ _ => rfl, _, rfl, ?_, rfl,
    rfl⟩
  exact List.mem_of_elem_eq_true rfl

end Cluster

end Lifecycle
