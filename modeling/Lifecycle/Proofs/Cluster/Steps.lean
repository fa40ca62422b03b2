import Lifecycle.Cluster.Family
import Lifecycle.Proofs.Calls
import Lifecycle.Proofs.Completion
import Lifecycle.Proofs.Requests

/-!
# The steps of the cluster family

All chains of the family are made of the steps of one list, in its order. What
the steps have in common is settled on this list: their names keep their marks
apart, their hooks leave the marks alone, each sends requests of one operation, and
none changes anything by looking for its effect.
-/

namespace Lifecycle.Cluster

open Json ProgressRecord Chain

/-- The steps of all chains of the family. -/
def steps (s : Settings) (scope : ResourceScope) : List (Step Cluster) :=
  [ Step.createCluster s.coolDown,
    Step.restoreFromSnapshot s.coolDown,
    Step.modifyCluster s.patchMinObservations s.modification,
    Step.deleteTags scope,
    Step.createTags scope,
    Step.disableLogging,
    Step.enableLogging,
    Step.configureAqua s.aquaMinObservations s.modification,
    Step.resolveNamespace,
    Step.putResourcePolicy,
    Step.deleteResourcePolicy,
    Step.deleteCluster s.settle ] ++ readBack

variable {s : Settings} {scope : ResourceScope}

/-- Every chain of the family has some of the steps, in their order. -/
theorem sublist_steps {operation : Operation} {chain : Chain Cluster}
    (hchain : (family s scope).chain operation = some chain) :
    chain.steps.Sublist (steps s scope) := by
  cases operation with
  | list => cases hchain
  | _ =>
    obtain rfl := Option.some.inj hchain
    repeat (first | exact .slnil | apply List.Sublist.cons_cons | apply List.Sublist.cons)

/-- The steps of a chain are among those in the list. -/
theorem mem_steps_of_chain {operation : Operation} {chain : Chain Cluster}
    (hchain : (family s scope).chain operation = some chain) {step : Step Cluster}
    (hstep : step ∈ chain.steps) : step ∈ steps s scope :=
  (sublist_steps hchain).subset hstep

/-- What holds of each of the steps, by the names they go by. -/
theorem forall_mem_steps {P : Step Cluster → Prop} (create : P (Step.createCluster s.coolDown))
    (restore : P (Step.restoreFromSnapshot s.coolDown))
    (modify : P (Step.modifyCluster s.patchMinObservations s.modification))
    (deleteTags : P (Step.deleteTags scope)) (createTags : P (Step.createTags scope))
    (disableLogging : P Step.disableLogging) (enableLogging : P Step.enableLogging)
    (configureAqua : P (Step.configureAqua s.aquaMinObservations s.modification))
    (resolveNamespace : P Step.resolveNamespace) (putPolicy : P Step.putResourcePolicy)
    (deletePolicy : P Step.deleteResourcePolicy) (delete : P (Step.deleteCluster s.settle))
    (describe : P Step.describeCluster) (describeLogging : P Step.describeLoggingStatus)
    (getPolicy : P Step.getResourcePolicy) : ∀ step ∈ steps s scope, P step := by
  simp only [steps, readBack, List.cons_append, List.nil_append, List.forall_mem_cons]
  exact ⟨create, restore, modify, deleteTags, createTags, disableLogging, enableLogging,
    configureAqua, resolveNamespace, putPolicy, deletePolicy, delete, describe, describeLogging,
    getPolicy, nofun⟩

/-- The names of the steps. -/
theorem names_steps : (steps s scope).map (·.name) =
    ["create-cluster", "restore-from-snapshot", "modify-cluster", "delete-tags", "create-tags",
      "disable-logging", "enable-logging", "configure-aqua", "resolve-namespace",
      "put-resource-policy", "delete-resource-policy", "delete-cluster", "describe-cluster",
      "describe-logging-status", "get-resource-policy"] := rfl

/-- The steps are known by their names. -/
theorem eq_of_name_eq {a b : Step Cluster} (ha : a ∈ steps s scope) (hb : b ∈ steps s scope)
    (hname : a.name = b.name) : a = b := by
  refine List.inj_on_of_nodup_map ?_ ha hb hname
  rw [names_steps]
  decide +kernel

/-- In each chain the names of the steps keep their marks apart. -/
theorem namesApart {operation : Operation} {chain : Chain Cluster}
    (hchain : (family s scope).chain operation = some chain) : chain.NamesApart := by
  have hsublist := (sublist_steps hchain).map (·.name)
  rw [names_steps] at hsublist
  exact .of_sublist hsublist (by decide +kernel) (by decide +kernel) (by decide +kernel)

@[simp] theorem flags_rememberNamespace (response : Value) (r : ProgressRecord Cluster) :
    (rememberNamespace response r).flags = r.flags := by
  unfold rememberNamespace
  cases namespaceArn? response <;> rfl

/-- Noting what a creation tells leaves the marks alone. -/
theorem flags_created (coolDown : UInt64) (observed : Option Value) (r : ProgressRecord Cluster) :
    (created coolDown observed r).2.flags = r.flags := by
  cases observed with
  | none => rfl
  | some description => exact flags_rememberNamespace description r

/-- The hooks of all steps leave the marks alone. -/
theorem keepsMarks : ∀ step ∈ steps s scope, step.KeepsMarks := by
  have hplain : ∀ {step : Step Cluster}, (∀ response r, step.capture response r = r) →
      (∀ observed r, step.onComplete observed r = (.advance, r)) → step.KeepsMarks := by
    intro step hcapture hcomplete
    exact ⟨fun response r => by rw [hcapture], fun observed r => by rw [hcomplete]⟩
  apply forall_mem_steps
  case create | restore => exact ⟨flags_rememberNamespace, flags_created _⟩
  case resolveNamespace =>
    refine ⟨flags_rememberNamespace, ?_⟩
    intro observed r
    cases observed with
    | none => rfl
    | some page => exact flags_rememberNamespace page r
  case describe =>
    refine ⟨?_, fun _ _ => rfl⟩
    intro response r
    cases hfirst : firstDescribed? response with
    | none => simp [Step.describeCluster, hfirst]
    | some description => simp [Step.describeCluster, hfirst, updateModel, withModel]
  case describeLogging | getPolicy => exact ⟨fun _ _ => rfl, fun _ _ => rfl⟩
  all_goals exact hplain (fun _ _ => rfl) (fun _ _ => rfl)

/-- The faults that a step of the family lives with, by the name of the step. -/
inductive Tolerates (target : Target Cluster) (fault : ClassifiedFault) (name : String) : Prop
  /-- The policy that is to be removed is gone already. -/
  | removedPolicy (hname : name = "delete-resource-policy")
      (hgone : fault.disposition = .terminal .notFound)
  /-- There is no policy to read. -/
  | noPolicy (hname : name = "get-resource-policy")
      (hgone : fault.disposition = .terminal .notFound)
  /-- The policy must not be read, and none is wanted. -/
  | hiddenPolicy (hname : name = "get-resource-policy")
      (hdenied : fault.disposition = .terminal .accessDenied)
      (hunwanted : target.desired.namespaceResourcePolicy = none)

/-- Only two steps live with faults. -/
theorem Tolerates.contains_name {target : Target Cluster} {fault : ClassifiedFault} {name : String}
    (h : Tolerates target fault name) :
    ["delete-resource-policy", "get-resource-policy"].contains name = true := by
  cases h with
  | removedPolicy hname => exact List.elem_eq_true_of_mem (by simp [hname])
  | noPolicy hname => exact List.elem_eq_true_of_mem (by simp [hname])
  | hiddenPolicy hname => exact List.elem_eq_true_of_mem (by simp [hname])

/-- The steps live with these faults and no others. -/
theorem suppress_iff : ∀ step ∈ steps s scope, ∀ fault target,
    step.suppress fault target = true ↔ Tolerates target fault step.name := by
  apply forall_mem_steps
  case deletePolicy =>
    intro fault target
    constructor
    · intro h
      exact .removedPolicy rfl (eq_of_beq h)
    · intro h
      cases h with
      | removedPolicy _ hgone => exact beq_iff_eq.mpr hgone
      | noPolicy _ hgone => exact beq_iff_eq.mpr hgone
      | hiddenPolicy hname => exact absurd hname (by decide)
  case getPolicy =>
    intro fault target
    constructor
    · intro h
      rcases Bool.or_eq_true_iff.mp h with hgone | h
      · exact .noPolicy rfl (eq_of_beq hgone)
      · obtain ⟨hdenied, hunwanted⟩ := Bool.and_eq_true_iff.mp h
        refine .hiddenPolicy rfl ?_ (Option.isNone_iff_eq_none.mp hunwanted)
        exact ClassifiedFault.disposition_of_kind (eq_of_beq hdenied) (by decide)
    · intro h
      apply Bool.or_eq_true_iff.mpr
      cases h with
      | removedPolicy _ hgone => exact .inl (beq_iff_eq.mpr hgone)
      | noPolicy _ hgone => exact .inl (beq_iff_eq.mpr hgone)
      | hiddenPolicy _ hdenied hunwanted =>
        right
        rw [ClassifiedFault.kind, hdenied, hunwanted]
        rfl
  all_goals
    intro fault target
    exact iff_of_false Bool.false_ne_true fun h => Bool.false_ne_true h.contains_name

/-- The operation of the request of each step. -/
def operations : List (String × String) :=
  [ ("create-cluster", "CreateCluster"),
    ("restore-from-snapshot", "RestoreFromClusterSnapshot"),
    ("modify-cluster", "ModifyCluster"),
    ("delete-tags", "DeleteTags"),
    ("create-tags", "CreateTags"),
    ("disable-logging", "DisableLogging"),
    ("enable-logging", "EnableLogging"),
    ("configure-aqua", "ModifyAquaConfiguration"),
    ("resolve-namespace", "DescribeClusters"),
    ("put-resource-policy", "PutResourcePolicy"),
    ("delete-resource-policy", "DeleteResourcePolicy"),
    ("delete-cluster", "DeleteCluster"),
    ("describe-cluster", "DescribeClusters"),
    ("describe-logging-status", "DescribeLoggingStatus"),
    ("get-resource-policy", "GetResourcePolicy") ]

/-- A request that depends on a value that may be missing is made of that value. -/
theorem exists_eq_of_bind {α β : Type} {x : Except Defect α} {f : α → β} {b : β}
    (h : (do return f (← x)) = Except.ok b) : ∃ a, x = .ok a ∧ b = f a := by
  cases x with
  | error defect => cases h
  | ok a => exact ⟨a, rfl, (Except.ok.inj h).symm⟩

/-- Each step sends requests of its operation. -/
theorem mem_operations : ∀ step ∈ steps s scope, ∀ target r request,
    step.request target r = .ok request → (step.name, request.operation) ∈ operations := by
  apply forall_mem_steps
  case create | restore =>
    intro target r request hrequest
    obtain rfl := Except.ok.inj hrequest
    exact List.mem_of_elem_eq_true rfl
  all_goals
    intro target r request hrequest
    obtain ⟨_, _, rfl⟩ := exists_eq_of_bind hrequest
    exact List.mem_of_elem_eq_true rfl

/-- Whether a call only reads. -/
def isReading : Call → Bool
  | .describe _ => true
  | .invoke request =>
    ["DescribeClusters", "DescribeLoggingStatus", "GetResourcePolicy"].contains request.operation

/-- What is wrapped in a computation that succeeds. -/
theorem eq_ok_of_map_some {α : Type} {x : Except Defect α} {a : α}
    (h : some <$> x = Except.ok (some a)) : x = .ok a := by
  cases x with
  | error defect => cases h
  | ok b => exact congrArg Except.ok (Option.some.inj (Except.ok.inj h))

/-- Whether a call is one of those that look for the effect of a request: at the cluster, a page of
clusters or the logging status. -/
def isLook : Call → Bool
  | .describe _ => true
  | .invoke request => ["DescribeClusters", "DescribeLoggingStatus"].contains request.operation

/-- Looking only reads. -/
theorem isReading_of_isLook {call : Call} (h : isLook call = true) : isReading call = true := by
  cases call with
  | describe => rfl
  | invoke request =>
    simp only [isLook, List.contains_eq_mem, List.mem_cons, List.not_mem_nil, or_false,
      decide_eq_true_eq] at h
    rcases h with h | h <;> simp [isReading, h]

/-- A look for the namespace, as long as it is not known. -/
theorem resolveNamespace_looks {target : Target Cluster} {r : ProgressRecord Cluster}
    {l : Stabilization} (h : Step.resolveNamespace.stabilization target r = .ok (some l)) :
    ∃ identifier, l = { probe := .invoke (describeRequest (some identifier) none) } := by
  simp only [Step.resolveNamespace] at h
  cases hknown : knownNamespace? target r with
  | some arn => simp [hknown, pure, Except.pure] at h
  | none =>
    rw [hknown] at h
    obtain ⟨identifier, _, hlooks⟩ := exists_eq_of_bind h
    exact ⟨identifier, Option.some.inj hlooks⟩

/-- All that the steps do to look for the effect of their requests is to look. -/
theorem isLook_stabilization : ∀ step ∈ steps s scope, ∀ target r l,
    step.stabilization target r = .ok (some l) → isLook l.probe.call = true := by
  have hdescribes : ∀ {target l}, describeProbe target = .ok l → isLook l.probe.call = true := by
    intro target l h
    obtain ⟨_, _, rfl⟩ := exists_eq_of_bind h
    rfl
  apply forall_mem_steps
  case create | restore | delete =>
    intro target r l h
    exact hdescribes (eq_ok_of_map_some h)
  case modify | configureAqua =>
    intro target r l h
    obtain ⟨_, hprobe, heq⟩ := exists_eq_of_bind h
    have hlook := hdescribes hprobe
    rw [Option.some.inj heq]
    exact hlook
  case disableLogging | enableLogging =>
    intro target r l h
    obtain ⟨_, _, rfl⟩ := exists_eq_of_bind (eq_ok_of_map_some h)
    rfl
  case resolveNamespace =>
    intro target r l h
    obtain ⟨_, rfl⟩ := resolveNamespace_looks h
    rfl
  all_goals
    intro target r l h
    cases h

/-- Looking for the effect of any step's request only reads. -/
theorem isReading_stabilization {step : Step Cluster} (hstep : step ∈ steps s scope)
    {target : Target Cluster} {r : ProgressRecord Cluster} {l : Stabilization}
    (h : step.stabilization target r = .ok (some l)) : isReading l.probe.call = true :=
  isReading_of_isLook (isLook_stabilization step hstep target r l h)

/-- Whether a call asks for an operation. -/
def isFor (operation : String) : Call → Bool
  | .invoke request => request.operation == operation
  | .describe _ => false

/-- A call that only reads is none for an operation that changes something. -/
theorem isFor_eq_false {operation : String} {call : Call}
    (hchanges : ∀ request, request.operation = operation → isReading (.invoke request) = false)
    (hreading : isReading call = true) : isFor operation call = false := by
  cases call with
  | describe => rfl
  | invoke request =>
    refine beq_false_of_ne fun hoperation => ?_
    cases (hchanges request hoperation).symm.trans hreading

/-- A call for an operation that changes something is made by the step with that operation. -/
theorem mem_operations_of_isFor {step : Step Cluster} (hstep : step ∈ steps s scope)
    {target : Target Cluster} {r : ProgressRecord Cluster} {purpose : Purpose}
    {exchange : Exchange} {operation : String}
    (hmade : MadeBy target step r (.exchanged purpose exchange))
    (hfor : isFor operation exchange.call = true)
    (hchanges : ∀ request, request.operation = operation → isReading (.invoke request) = false) :
    (step.name, operation) ∈ operations := by
  rcases hmade.request_or_look with ⟨request, _, hcall, hrequest⟩ | ⟨r', l, _, hcall, hdeclared⟩
  · rw [hcall] at hfor
    rw [← show request.operation = operation from eq_of_beq hfor]
    exact mem_operations step hstep target r request hrequest
  · rw [hcall, isFor_eq_false hchanges
      (isReading_stabilization hstep hdeclared)] at hfor
    cases hfor

/-- The operations that change something and their steps belong together one by one. -/
theorem name_eq_iff {a b : String × String} (ha : a ∈ operations) (hb : b ∈ operations)
    (hchanges : ∀ request, request.operation = b.2 → isReading (.invoke request) = false) :
    a.1 = b.1 ↔ a.2 = b.2 := by
  have htable : ∀ a ∈ operations, ∀ b ∈ operations,
      isReading (.invoke ⟨b.2, .null⟩) = false → (a.1 = b.1 ↔ a.2 = b.2) := by
    decide +kernel
  exact htable a ha b hb (hchanges _ rfl)

section Calls

variable {run : Run Cluster} {kind : Operation}
  (hchain : (family s scope).chain kind = some run.chain) {name operation : String}
  (hoperation : (name, operation) ∈ operations)
  (hchanges : ∀ request, request.operation = operation → isReading (.invoke request) = false)
include hchain hoperation hchanges

/-- In a run over a chain of the family, the calls for an operation that changes something are the
requests of the step with that operation. -/
theorem sends_eq_isFor {limit : Nat} {purpose : Purpose} {exchange : Exchange}
    (hentry : .exchanged purpose exchange ∈ run.journal limit) :
    (Entry.exchanged purpose exchange).sends name = isFor operation exchange.call := by
  obtain ⟨n, step, rest, r, past, harrives, _, hmade⟩ := Run.exists_madeBy hentry rfl
  have hstep := mem_steps_of_chain hchain harrives.mem
  rcases hmade.request_or_look with
    ⟨request, rfl, hcall, hrequest⟩ | ⟨r', l, rfl, hcall, hdeclared⟩
  · have hname := name_eq_iff (mem_operations step hstep _ r request hrequest) hoperation hchanges
    rw [hcall, Bool.eq_iff_iff]
    exact decide_eq_true_iff.trans (hname.trans beq_iff_eq.symm)
  · have hreading := isReading_stabilization hstep hdeclared
    rw [hcall, isFor_eq_false hchanges hreading]
    rfl

end Calls

/-- In a run over a chain of the family, there is a call for an operation that changes something
when there is a request of the step with that operation. -/
theorem exists_exchange_iff {run : Run Cluster} {kind : Operation}
    (hchain : (family s scope).chain kind = some run.chain) (step : Step Cluster)
    (operation : String) (hoperation : (step.name, operation) ∈ operations)
    (hchanges : ∀ request, request.operation = operation → isReading (.invoke request) = false)
    (P : Answer → Prop) (limit : Nat) :
    (∃ exchange ∈ (run.journal limit).exchanges,
        isFor operation exchange.call = true ∧ P exchange.answer) ↔
      ∃ request answer, sent step request answer ∈ run.journal limit ∧ P answer := by
  constructor
  · rintro ⟨⟨call, answer⟩, hexchange, hfor, hanswer⟩
    obtain ⟨purpose, hentry⟩ := Journal.mem_exchanges.mp hexchange
    have hsends := (sends_eq_isFor hchain hoperation hchanges hentry).trans hfor
    cases call with
    | describe => cases hfor
    | invoke request =>
      cases purpose with
      | mutation name =>
        obtain rfl : name = step.name := of_decide_eq_true hsends
        exact ⟨request, answer, hentry, hanswer⟩
      | _ => cases hsends
  · rintro ⟨request, answer, hsent, hanswer⟩
    have hfor := sends_eq_isFor hchain hoperation hchanges hsent
    exact ⟨_, Journal.mem_exchanges.mpr ⟨_, hsent⟩, hfor.symm.trans (by simp [Entry.sends]), hanswer⟩

end Lifecycle.Cluster
