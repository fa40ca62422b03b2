import Lifecycle.Proofs.Cluster.KnownNamespace
import Lifecycle.Proofs.Replay

/-!
# The namespace that policy calls name

An answer carries the namespace in one of three places (`Carries`), and some answers tell it to the
operation (`Tells`). The record keeps the namespace that an answer told last
(`identifier?_of_arrives`). So a call that attaches, reads or removes a policy names that one; only
as long as no answer has told a namespace does it name the desired model's, and then the previous
model's (`policy_calls_name_told`).
-/

namespace Lifecycle.Cluster

open Json ProgressRecord Chain

variable {s : Settings} {scope : ResourceScope}

section Answers

variable {answer cluster : Value} {arn : String}

/-- An answer describes a cluster: the first one of the page, or the answer itself when it is no
page. -/
inductive Describes (answer : Value) : Value → Prop
  /-- The first one of the page. -/
  | listed {cluster : Value} {others : List Value}
      (hpage : answer.get? "Clusters" = some (.array (cluster :: others))) :
      Describes answer cluster
  /-- The answer itself. -/
  | single {identifier : Value} (hpage : answer.get? "Clusters" = none)
      (hid : answer.get? "ClusterIdentifier" = some identifier) : Describes answer answer

/-- An answer encloses a cluster: the one that a creation or a restoration answers with, or the
answer itself. -/
inductive Encloses (answer : Value) : Value → Prop
  /-- The one that is made. -/
  | made {cluster : Value} (hcluster : answer.get? "Cluster" = some cluster) :
      Encloses answer cluster
  /-- The answer itself. -/
  | bare (hcluster : answer.get? "Cluster" = none) : Encloses answer answer

/-- An answer carries the resource name of the namespace. -/
inductive Carries (answer : Value) (arn : String) : Prop
  /-- In the cluster that it encloses. -/
  | enclosed {cluster : Value} (hencloses : Encloses answer cluster)
      (harn : cluster.get? "ClusterNamespaceArn" = some (.string arn)) : Carries answer arn
  /-- In the cluster that it describes, when there is none in the one that it encloses. -/
  | described {other cluster : Value} (hencloses : Encloses answer other)
      (hnone : ∀ text, other.get? "ClusterNamespaceArn" ≠ some (.string text))
      (hdescribes : Describes answer cluster)
      (harn : cluster.get? "ClusterNamespaceArn" = some (.string arn)) : Carries answer arn

/-- A member that is a text. -/
theorem stringAt?_eq_some_iff {key text : String} :
    answer.stringAt? key = some text ↔ answer.get? key = some (.string text) := by
  rw [Value.stringAt?, Option.bind_eq_some_iff]
  constructor
  · rintro ⟨value, hvalue, htext⟩
    cases value with
    | string => rw [hvalue, Option.some.inj htext]
    | _ => cases htext
  · intro h
    exact ⟨_, h, rfl⟩

/-- What is read as the described cluster is the one that the answer describes. -/
theorem firstDescribed?_eq_some_iff :
    firstDescribed? answer = some cluster ↔ Describes answer cluster := by
  rw [firstDescribed?]
  cases hpage : answer.get? "Clusters" with
  | some page =>
    constructor
    · intro hfirst
      cases page with
      | array items =>
        obtain ⟨others, rfl⟩ := List.head?_eq_some_iff.mp hfirst
        exact .listed hpage
      | _ => cases hfirst
    · rintro (hlisted | hsingle)
      · obtain rfl := Option.some.inj (hpage.symm.trans hlisted)
        rfl
      · cases hpage.symm.trans hsingle
  | none =>
    rw [Option.map_eq_some_iff]
    constructor
    · rintro ⟨identifier, hid, rfl⟩
      exact .single hpage hid
    · rintro (hlisted | ⟨-, hid⟩)
      · cases hpage.symm.trans hlisted
      · exact ⟨_, hid, rfl⟩

/-- An answer encloses one cluster. -/
theorem encloses_iff : Encloses answer cluster ↔ (answer.get? "Cluster").getD answer = cluster := by
  cases hcluster : answer.get? "Cluster" with
  | some made =>
    constructor
    · rintro (hmade | hbare)
      · exact Option.some.inj (hcluster.symm.trans hmade)
      · cases hcluster.symm.trans hbare
    · rintro rfl
      exact .made hcluster
  | none =>
    constructor
    · rintro (hmade | -)
      · cases hcluster.symm.trans hmade
      · rfl
    · rintro rfl
      exact .bare hcluster

/-- What is read as the namespace is what the answer carries. -/
theorem namespaceArn?_eq_some_iff : namespaceArn? answer = some arn ↔ Carries answer arn := by
  have hencloses := encloses_iff.mpr (rfl : (answer.get? "Cluster").getD answer = _)
  rw [namespaceArn?]
  cases hown : ((answer.get? "Cluster").getD answer).stringAt? "ClusterNamespaceArn" with
  | some text =>
    have htext := stringAt?_eq_some_iff.mp hown
    constructor
    · intro heq
      obtain rfl := Option.some.inj heq
      exact .enclosed hencloses htext
    · rintro (⟨henclosed, harn⟩ | ⟨henclosed, hnone, -, -⟩)
      · rw [← encloses_iff.mp henclosed] at harn
        rw [← stringAt?_eq_some_iff.mpr harn, hown]
        rfl
      · rw [← encloses_iff.mp henclosed] at hnone
        exact absurd htext (hnone text)
  | none =>
    have hnone : ∀ text, ((answer.get? "Cluster").getD answer).get? "ClusterNamespaceArn" ≠
        some (.string text) := by
      intro text htext
      cases hown.symm.trans (stringAt?_eq_some_iff.mpr htext)
    constructor
    · intro heq
      obtain ⟨cluster, hfirst, harn⟩ := Option.bind_eq_some_iff.mp heq
      exact .described hencloses hnone (firstDescribed?_eq_some_iff.mp hfirst)
        (stringAt?_eq_some_iff.mp harn)
    · rintro (⟨henclosed, harn⟩ | ⟨-, -, hdescribes, harn⟩)
      · rw [← encloses_iff.mp henclosed] at harn
        exact absurd harn (hnone arn)
      · exact Option.bind_eq_some_iff.mpr ⟨_, firstDescribed?_eq_some_iff.mpr hdescribes,
          stringAt?_eq_some_iff.mpr harn⟩

end Answers

/-- An entry tells the namespace. -/
inductive Tells : Entry → String → Prop
  /-- The answer to a creation, a restoration or the lookup of the namespace. -/
  | answered {name arn : String} {call : Call} {response : Value}
      (hname : name ∈ ["create-cluster", "restore-from-snapshot", "resolve-namespace"])
      (hcarries : Carries response arn) :
      Tells (.exchanged (.mutation name) ⟨call, .ok response⟩) arn
  /-- A look that finds the new cluster available. -/
  | available {name arn : String} {call : Call} {state : Value}
      (hname : name ∈ ["create-cluster", "restore-from-snapshot"])
      (havailable : state.get? "ClusterStatus" = some (.string "available"))
      (hcarries : Carries state arn) :
      Tells (.exchanged (.observation (Step.tallyKey name)) ⟨call, .ok state⟩) arn
  /-- A look for the namespace. -/
  | found {arn : String} {call : Call} {page : Value} (hcarries : Carries page arn) :
      Tells (.exchanged (.observation (Step.tallyKey "resolve-namespace")) ⟨call, .ok page⟩) arn
  /-- The cluster on the page that is read back. -/
  | readBack {arn : String} {call : Call} {page cluster : Value}
      (hdescribes : Describes page cluster) (hcarries : Carries cluster arn) :
      Tells (.exchanged (.mutation "describe-cluster") ⟨call, .ok page⟩) arn

/-- The namespace that an entry tells, as the steps read it. -/
def toldNamespace? : Entry → Option String
  | .exchanged (.mutation name) ⟨_, .ok response⟩ =>
    if name ∈ ["create-cluster", "restore-from-snapshot", "resolve-namespace"] then
      namespaceArn? response
    else if name = "describe-cluster" then (firstDescribed? response).bind namespaceArn?
    else none
  | .exchanged (.observation tally) ⟨_, .ok state⟩ =>
    if tally ∈ [Step.tallyKey "create-cluster", Step.tallyKey "restore-from-snapshot"] then
      if isAvailable state then namespaceArn? state else none
    else if tally = Step.tallyKey "resolve-namespace" then namespaceArn? state
    else none
  | _ => none

/-- The steps read the namespace that an entry tells. -/
theorem toldNamespace?_eq_some_iff {entry : Entry} {arn : String} :
    toldNamespace? entry = some arn ↔ Tells entry arn := by
  constructor
  · intro h
    rcases entry with ⟨name | tally | _, call, _ | answer⟩ | _ | _ | _ | _
    case exchanged.mutation.ok =>
      rw [toldNamespace?] at h
      split at h
      · next hname => exact .answered hname (namespaceArn?_eq_some_iff.mp h)
      · obtain ⟨rfl, htold⟩ := Option.ite_none_right_eq_some.mp h
        obtain ⟨cluster, hfirst, harn⟩ := Option.bind_eq_some_iff.mp htold
        exact .readBack (firstDescribed?_eq_some_iff.mp hfirst) (namespaceArn?_eq_some_iff.mp harn)
    case exchanged.observation.ok =>
      rw [toldNamespace?] at h
      split at h
      · next htally =>
        obtain ⟨havailable, harn⟩ := Option.ite_none_right_eq_some.mp h
        obtain ⟨name, hname, rfl⟩ : ∃ name ∈ ["create-cluster", "restore-from-snapshot"],
            Step.tallyKey name = tally := by simpa [eq_comm] using htally
        exact .available hname (stringAt?_eq_some_iff.mp (beq_iff_eq.mp havailable))
          (namespaceArn?_eq_some_iff.mp harn)
      · obtain ⟨rfl, harn⟩ := Option.ite_none_right_eq_some.mp h
        exact .found (namespaceArn?_eq_some_iff.mp harn)
    all_goals cases h
  · intro h
    cases h with
    | answered hname hcarries =>
      rw [toldNamespace?, if_pos hname]
      exact namespaceArn?_eq_some_iff.mpr hcarries
    | available hname havailable hcarries =>
      have hstatus := beq_iff_eq.mpr (stringAt?_eq_some_iff.mpr havailable)
      rw [toldNamespace?, if_pos (by simpa using hname)]
      exact (if_pos hstatus).trans (namespaceArn?_eq_some_iff.mpr hcarries)
    | found hcarries =>
      simpa [toldNamespace?] using namespaceArn?_eq_some_iff.mpr hcarries
    | readBack hdescribes hcarries =>
      simp [toldNamespace?, firstDescribed?_eq_some_iff.mpr hdescribes,
        namespaceArn?_eq_some_iff.mpr hcarries]

/-- The namespace that is known after an entry. -/
def takeNamespace (known : Option String) (entry : Entry) : Option String :=
  toldNamespace? entry <|> known

theorem onlyAnswers_takeNamespace : OnlyAnswers takeNamespace where
  other entry h _ := by cases entry <;> first | rfl | cases h
  fault purpose _ _ _ := by cases purpose <;> rfl

/-- After a journal the namespace is known that was told last. -/
theorem foldl_takeNamespace (j : Journal) :
    j.foldl takeNamespace none = (j.filterMap toldNamespace?).getLast? := by
  induction j using List.reverseRecOn with
  | nil => rfl
  | append_singleton j entry ih =>
    rw [List.foldl_append, ih, List.filterMap_append, List.foldl_cons, List.foldl_nil,
      takeNamespace]
    cases htold : toldNamespace? entry <;> simp [htold]

/-- Remembering what an answer tells comes before what was remembered. -/
theorem identifier?_rememberNamespace (response : Value) (r : ProgressRecord Cluster) :
    (rememberNamespace response r).identifier? namespaceKey =
      (namespaceArn? response <|> r.identifier? namespaceKey) := by
  rw [rememberNamespace]
  cases namespaceArn? response with
  | none => rfl
  | some arn => simp [identifier?, remember]

/-- A look at the cluster itself trusts one favourable verdict. -/
theorem minObservations_describeProbe {target : Target Cluster} {l : Stabilization}
    (h : describeProbe target = .ok l) : l.minObservations = 1 := by
  obtain ⟨_, _, rfl⟩ := exists_eq_of_bind h
  rfl

/-- The names of the steps whose answers tell the namespace. -/
def tellingSteps : List String :=
  ["create-cluster", "restore-from-snapshot", "resolve-namespace", "describe-cluster"]

/-- The answers to other steps tell nothing. -/
theorem toldNamespace?_of_callsFor {name : String} (hname : tellingSteps.contains name = false)
    {entry : Entry} (h : entry.callsFor name = true) : toldNamespace? entry = none := by
  simp only [tellingSteps, List.contains_eq_mem, List.mem_cons, List.not_mem_nil, or_false,
    decide_eq_false_iff_not, not_or] at hname
  obtain ⟨hcreate, hrestore, hresolve, hdescribe⟩ := hname
  rcases entry with ⟨step | tally | _, _, _ | _⟩ | _ | _ | _ | _
  case exchanged.mutation.ok =>
    obtain rfl : step = name := of_decide_eq_true h
    simp [toldNamespace?, hcreate, hrestore, hresolve, hdescribe]
  case exchanged.observation.ok =>
    obtain rfl : tally = Step.tallyKey name := of_decide_eq_true h
    simp [toldNamespace?, hcreate, hrestore, hresolve]
  all_goals rfl

/-- The steps keep up with what the journal tells of the namespace. -/
theorem keepsUp_namespace : ∀ step ∈ steps s scope,
    step.KeepsUp (fun r known => r.identifier? namespaceKey = known) takeNamespace := by
  have hplain : ∀ {step : Step Cluster}, tellingSteps.contains step.name = false →
      (∀ response r, (step.capture response r).identifiers = r.identifiers) →
      (∀ observed r, (step.onComplete observed r).2.identifiers = r.identifiers) →
      step.KeepsUp (fun r known => r.identifier? namespaceKey = known) takeNamespace := by
    intro step hname hcapture hcomplete
    have hquiet : ∀ {entry} known, entry.callsFor step.name = true →
        takeNamespace known entry = known := by
      intro entry known h
      rw [takeNamespace, toldNamespace?_of_callsFor hname h]
      rfl
    refine ⟨?_, ?_, ?_, ?_⟩
    · intro r known hknown request response
      rwa [hquiet _ (callsFor_sent ..), identifier?, hcapture]
    · intro r known hknown target r' l state _ _
      rwa [hquiet _ (callsFor_looked ..), identifier?, hcomplete]
    · intro r known hknown
      rwa [identifier?, hcomplete]
    · intro target r' l state _ _ known
      exact hquiet _ (callsFor_looked ..)
  have hlooked : ∀ (name : String) (call : Call) (state : Value) known,
      name = "create-cluster" ∨ name = "restore-from-snapshot" →
      takeNamespace known (.exchanged (.observation (Step.tallyKey name)) ⟨call, .ok state⟩) =
        if isAvailable state then namespaceArn? state <|> known else known := by
    rintro name call state known (rfl | rfl) <;>
      cases havailable : isAvailable state <;> simp [takeNamespace, toldNamespace?, havailable]
  apply forall_mem_steps
  case create | restore =>
    refine ⟨?_, ?_, fun h => h, ?_⟩
    · intro r known hknown request response
      rw [← hknown]
      exact identifier?_rememberNamespace response r
    · intro r known hknown target r' l state _ hstable
      have havailable : isAvailable state = true := hstable
      rw [looked, hlooked _ _ _ _ (by simp [Step.createCluster, Step.restoreFromSnapshot]),
        if_pos havailable, ← hknown]
      exact identifier?_rememberNamespace state r
    · intro target r' l state hdeclared hfew known
      rw [minObservations_describeProbe (eq_ok_of_map_some hdeclared)] at hfew
      have hunavailable : ¬isAvailable state = true := fun h => absurd (hfew h) (by decide)
      rw [looked, hlooked _ _ _ _ (by simp [Step.createCluster, Step.restoreFromSnapshot]),
        if_neg hunavailable]
  case resolveNamespace =>
    have hpage : ∀ (call : Call) (page : Value) known,
        takeNamespace known (.exchanged (.observation (Step.tallyKey "resolve-namespace"))
          ⟨call, .ok page⟩) = (namespaceArn? page <|> known) := by
      intro call page known
      simp [takeNamespace, toldNamespace?]
    refine ⟨?_, ?_, fun h => h, ?_⟩
    · intro r known hknown request response
      rw [← hknown]
      exact identifier?_rememberNamespace response r
    · intro r known hknown target r' l page _ _
      rw [← hknown]
      exact (identifier?_rememberNamespace page r).trans (hpage _ page _).symm
    · intro target r' l page hdeclared hfew known
      obtain ⟨identifier, rfl⟩ := resolveNamespace_looks hdeclared
      have huntold : namespaceArn? page = none := by
        rw [← Option.not_isSome_iff_eq_none]
        exact fun htold => UInt32.lt_irrefl 1 (hfew htold)
      rw [looked, show Step.resolveNamespace.name = "resolve-namespace" from rfl, hpage, huntold]
      rfl
  case describe =>
    refine ⟨?_, fun h _ _ _ _ _ _ => h, fun h => h, fun _ _ _ => rfl⟩
    intro r known hknown request response
    have htaken : takeNamespace known (sent Step.describeCluster request (.ok response)) =
        ((firstDescribed? response).bind namespaceArn? <|> known) := by
      simp [takeNamespace, toldNamespace?, sent, Step.describeCluster]
    rw [htaken, ← hknown]
    cases hfirst : firstDescribed? response with
    | none => simp [Step.describeCluster, hfirst]
    | some description =>
      simp only [Step.describeCluster, hfirst, Option.bind_some]
      exact identifier?_rememberNamespace description r
  all_goals exact hplain rfl (fun _ _ => rfl) (fun _ _ => rfl)

/-- The namespace that is known after a journal. -/
inductive KnownAfter (target : Target Cluster) (j : Journal) : String → Prop
  /-- What was told last. -/
  | told {front back : Journal} {entry : Entry} {arn : String} (hsplit : j = front ++ entry :: back)
      (htells : Tells entry arn) (hlast : ∀ later ∈ back, ∀ other, ¬Tells later other) :
      KnownAfter target j arn
  /-- Only when nothing was told, what the desired model has. -/
  | desired {arn : String} (hnone : ∀ entry ∈ j, ∀ other, ¬Tells entry other)
      (hdesired : target.desired.clusterNamespaceArn = some arn) : KnownAfter target j arn
  /-- Only when this has none either, what the previous model has. -/
  | previous {previous : Cluster} {arn : String} (hnone : ∀ entry ∈ j, ∀ other, ¬Tells entry other)
      (hdesired : target.desired.clusterNamespaceArn = none)
      (hprevious : target.previous = some previous)
      (harn : previous.clusterNamespaceArn = some arn) : KnownAfter target j arn

/-- What an entry does not tell is not read from it. -/
theorem toldNamespace?_eq_none_iff {entry : Entry} :
    toldNamespace? entry = none ↔ ∀ other, ¬Tells entry other := by
  simp only [Option.eq_none_iff_forall_ne_some, ne_eq, toldNamespace?_eq_some_iff]

/-- What was read last was told last. -/
theorem exists_of_getLast?_eq_some {j : Journal} {arn : String}
    (h : (j.filterMap toldNamespace?).getLast? = some arn) :
    ∃ front entry back, j = front ++ entry :: back ∧ Tells entry arn ∧
      ∀ later ∈ back, ∀ other, ¬Tells later other := by
  induction j using List.reverseRecOn with
  | nil => cases h
  | append_singleton j entry ih =>
    rw [List.filterMap_append] at h
    cases htold : toldNamespace? entry with
    | some text =>
      obtain rfl : text = arn := by simpa [htold] using h
      exact ⟨j, entry, [], rfl, toldNamespace?_eq_some_iff.mp htold, List.forall_mem_nil _⟩
    | none =>
      obtain ⟨front, earlier, back, rfl, htells, hlast⟩ := ih (by simpa [htold] using h)
      refine ⟨front, earlier, back ++ [entry], List.append_assoc _ _ _, htells, ?_⟩
      rw [List.forall_mem_append, List.forall_mem_singleton]
      exact ⟨hlast, toldNamespace?_eq_none_iff.mp htold⟩

/-- What is remembered comes before what the desired model has, and this before what the previous
model has. -/
theorem knownAfter_of_knownNamespace? {target : Target Cluster} {r : ProgressRecord Cluster}
    {j : Journal} {arn : String}
    (hremembered : r.identifier? namespaceKey = (j.filterMap toldNamespace?).getLast?)
    (h : knownNamespace? target r = some arn) : KnownAfter target j arn := by
  rw [knownNamespace?, hremembered] at h
  cases htold : (j.filterMap toldNamespace?).getLast? with
  | some text =>
    rw [htold] at h
    obtain rfl := Option.some.inj h
    obtain ⟨front, entry, back, hsplit, htells, hlast⟩ := exists_of_getLast?_eq_some htold
    exact .told hsplit htells hlast
  | none =>
    rw [List.getLast?_eq_none_iff, List.filterMap_eq_nil_iff] at htold
    have hnone : ∀ entry ∈ j, ∀ other, ¬Tells entry other :=
      fun entry hentry => toldNamespace?_eq_none_iff.mp (htold entry hentry)
    rw [List.filterMap_eq_nil_iff.mpr htold] at h
    cases hdesired : target.desired.clusterNamespaceArn with
    | some text =>
      rw [hdesired] at h
      obtain rfl := Option.some.inj h
      exact .desired hnone hdesired
    | none =>
      rw [hdesired] at h
      obtain ⟨previous, hprevious, harn⟩ := Option.bind_eq_some_iff.mp h
      exact .previous hnone hdesired hprevious harn

/-- The operations whose requests name the namespace. -/
def policyOperations : List String :=
  ["PutResourcePolicy", "DeleteResourcePolicy", "GetResourcePolicy"]

/-- The request of an entry that attaches, removes or reads a policy. -/
def policyRequest? : Entry → Option RemoteRequest
  | .exchanged _ ⟨.invoke request, _⟩ =>
    if request.operation ∈ policyOperations then some request else none
  | _ => none

/-- Each policy request of a journal names the namespace that is known after what is before it. -/
def NamesKnown (target : Target Cluster) (j : Journal) : Prop :=
  j.Throughout fun before entry => ∀ request, policyRequest? entry = some request →
    ∃ arn, request.payload.stringAt? "ResourceArn" = some arn ∧ KnownAfter target before arn

/-- A policy request is a call for one of these operations. -/
theorem exists_eq_of_policyRequest? {entry : Entry} {request : RemoteRequest}
    (h : policyRequest? entry = some request) :
    request.operation ∈ policyOperations ∧
      ∃ purpose answer, entry = .exchanged purpose ⟨.invoke request, answer⟩ := by
  rcases entry with ⟨purpose, sent | _, answer⟩ | _ | _ | _ | _
  case exchanged.invoke =>
    obtain ⟨hpolicy, heq⟩ := Option.ite_none_right_eq_some.mp h
    obtain rfl := Option.some.inj heq
    exact ⟨hpolicy, purpose, answer, rfl⟩
  all_goals cases h

/-- No look is for one of these operations. -/
theorem not_mem_policyOperations_of_isLook {request : RemoteRequest}
    (h : isLook (.invoke request) = true) : request.operation ∉ policyOperations := by
  simp only [isLook, List.contains_eq_mem, List.mem_cons, List.not_mem_nil, or_false,
    decide_eq_true_eq] at h
  rcases h with h | h <;> simp [policyOperations, h]

/-- A request for one of these operations names the namespace that is known, and its answer tells
none. -/
theorem known_of_policyOperation : ∀ step ∈ steps s scope, ∀ {target r request},
    step.request target r = .ok request → request.operation ∈ policyOperations →
      (∃ arn, request.payload.stringAt? "ResourceArn" = some arn ∧
        knownNamespace? target r = some arn) ∧ tellingSteps.contains step.name = false := by
  apply forall_mem_steps
  case putPolicy =>
    intro target r request hrequest _
    obtain ⟨arn, harn, rfl⟩ := exists_eq_of_bind hrequest
    refine ⟨⟨arn, ?_, knownNamespace_eq_ok_iff.mp harn⟩, rfl⟩
    simp only [putPolicyRequest, Value.stringAt?, Value.ofMembers, Value.get?, Entries.collect,
      List.foldl_cons, List.foldl_nil]
    rw [Entries.find?_put_ne (by decide), Entries.find?_put_self]
    rfl
  case deletePolicy | getPolicy =>
    intro target r request hrequest _
    obtain ⟨arn, harn, rfl⟩ := exists_eq_of_bind hrequest
    exact ⟨⟨arn, rfl, knownNamespace_eq_ok_iff.mp harn⟩, rfl⟩
  case create | restore =>
    intro target r request hrequest hpolicy
    obtain rfl := Except.ok.inj hrequest
    exact absurd (List.elem_eq_true_of_mem hpolicy) Bool.false_ne_true
  all_goals
    intro target r request hrequest hpolicy
    obtain ⟨_, _, rfl⟩ := exists_eq_of_bind hrequest
    exact absurd (List.elem_eq_true_of_mem hpolicy) Bool.false_ne_true

section Runs

variable {operation : Operation} {target : Target Cluster} {run : Run Cluster}
  (hrun : (family s scope).CarriesOut operation target run)
include hrun

/-- Wherever a run gets to, the record has the namespace that was told last. -/
theorem identifier?_of_arrives {n : Nat} {rest : List (Step Cluster)} {r : ProgressRecord Cluster}
    {past : Journal} (harrives : run.Arrives n rest r past) :
    r.identifier? namespaceKey = (past.filterMap toldNamespace?).getLast? := by
  rw [← foldl_takeNamespace]
  refine harrives.shows (fun r known => r.identifier? namespaceKey = known)
    onlyAnswers_takeNamespace ?_ ?_ ?_ ?_
  · intro known r r' hknown _ hids
    rwa [identifier?, hids]
  · intro step hstep
    exact keepsUp_namespace step (mem_steps_of_chain hrun.chain hstep)
  · rw [identifier?, identifiers_seed, hrun.start]
    rfl
  · intro n r known hknown
    rwa [identifier?, identifiers_seed]

/-- In a run each policy request names the namespace that is known by then. -/
theorem namesKnown_journal (limit : Nat) : NamesKnown target (run.journal limit) := by
  refine Run.throughout_journal ?_ limit
  rintro n step rest r past result gained harrives _ hvisited before entry after rfl
  intro request hentry
  obtain ⟨hpolicy, purpose, answer, rfl⟩ := exists_eq_of_policyRequest? hentry
  have hstep := mem_steps_of_chain hrun.chain harrives.mem
  have hmade := hvisited.calls (List.mem_append_right before List.mem_cons_self) rfl
  rcases hmade.request_or_look with
    ⟨_, _, hcall, hrequest⟩ | ⟨r', l, _, hcall, hdeclared⟩
  · obtain rfl := Call.invoke.inj hcall
    obtain ⟨⟨arn, harn, hknown⟩, hname⟩ := known_of_policyOperation step hstep hrequest hpolicy
    -- What the visit did before the request tells nothing.
    have hquiet : before.filterMap toldNamespace? = [] := by
      rw [List.filterMap_eq_nil_iff]
      intro other hother
      cases hcalls : other.isCall with
      | false => cases other <;> first | rfl | cases hcalls
      | true =>
        have hmade := hvisited.calls (List.mem_append_left _ hother) hcalls
        exact toldNamespace?_of_callsFor hname hmade.callsFor
    rw [hrun.targets] at hknown
    refine ⟨arn, harn, knownAfter_of_knownNamespace? ?_ hknown⟩
    rw [List.filterMap_append, hquiet, List.append_nil]
    exact identifier?_of_arrives hrun harrives
  · have hlook := isLook_stabilization step hstep _ r' l hdeclared
    rw [← hcall] at hlook
    exact absurd hpolicy (not_mem_policyOperations_of_isLook hlook)

end Runs

/-- Every request that attaches, reads or removes a policy names the namespace that was told last
before it in the course of its operation. Only when none was told does it name that of the desired
model, and only when there is none either, that of the previous model. -/
theorem policy_calls_name_told (s : Settings) (scope : ResourceScope) (remote : Remote)
    {request : HandlerRequest Cluster} {desired : Cluster} (hlist : request.operation ≠ .list)
    (hdesired : request.desired = some desired) (hprogress : request.progress = none)
    (limit : Nat) :
    NamesKnown ⟨desired, request.previous⟩ ((family s scope).journal remote request limit) := by
  rcases Family.journal_eq_nil_or_exists_run hlist hdesired hprogress remote limit with
    ⟨hnone, _⟩ | ⟨run, hrun, hjournal, _⟩
  · rw [hnone]
    exact Journal.throughout_nil
  · rw [hjournal]
    exact namesKnown_journal hrun limit

/-- A new cluster that is to have a policy and for which the caller guesses the namespace. -/
def misnamed : Cluster where
  clusterIdentifier := some "analytics"
  masterUsername := some "admin"
  masterUserPassword := some "secret"
  nodeType := some "ra3.xlplus"
  namespaceResourcePolicy := some (.object [("Version", .string "2012-10-17")])
  clusterNamespaceArn := some "arn:guessed"

/-- A service that tells one namespace of the cluster that it makes, and another one of the cluster
on its pages. -/
def telling : Remote := fun _ call =>
  match call with
  | .invoke ⟨"CreateCluster", _⟩ =>
    .ok (.object [("Cluster", .object [("ClusterNamespaceArn", .string "arn:made")])])
  | .invoke ⟨"DescribeClusters", _⟩ =>
    .ok (.object [("Clusters", .array [.object [("ClusterIdentifier", .string "analytics"),
      ("ClusterNamespaceArn", .string "arn:listed")]])])
  | .invoke _ => .ok (.object [])
  | .describe _ => .ok (.object [("ClusterStatus", .string "available")])

/-- What is done at this service toward the cluster whose namespace the caller guesses. -/
def misnamedJournal (operation : Operation) : Journal :=
  (family { coolDown := 0 } {}).journal telling { operation, desired := misnamed } 1

/-- The operations of the policy requests of a journal, and the namespaces that they name. -/
def namesOf (j : Journal) : List (String × Option String) :=
  (j.filterMap policyRequest?).map fun request =>
    (request.operation, request.payload.stringAt? "ResourceArn")

/-- After a creation the policy is attached to the namespace that came with the new cluster. It is
read from the one on the page that was read back, as when the cluster is only read. The namespace
that the caller guessed is not named. -/
theorem misnamed_names_told :
    namesOf (misnamedJournal .create) =
        [("PutResourcePolicy", some "arn:made"), ("GetResourcePolicy", some "arn:listed")] ∧
      namesOf (misnamedJournal .read) = [("GetResourcePolicy", some "arn:listed")] ∧
      NamesKnown ⟨misnamed, none⟩ (misnamedJournal .create) ∧
      NamesKnown ⟨misnamed, none⟩ (misnamedJournal .read) :=
  ⟨by decide +kernel, by decide +kernel,
    policy_calls_name_told { coolDown := 0 } {} telling (by decide) rfl rfl 1,
    policy_calls_name_told { coolDown := 0 } {} telling (by decide) rfl rfl 1⟩

end Lifecycle.Cluster
