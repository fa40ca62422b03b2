import Lifecycle.Cluster.Modification
import Lifecycle.Proofs.Dictionaries

/-!
# What the request that changes a cluster carries

The request has a member for each tracked attribute that the desired model sets and that differs
from the previous model (`Changes`), the cluster's identifier, and nothing else
(`modifyRequest_carries_changes`). So it carries an attribute whenever one of them changes to a
value that is set (`modification_carries_attribute`); without one it carries the identifier alone.
-/

namespace Lifecycle.Cluster

open Json

/-- The desired model sets an attribute to a value that the previous model does not set it to. -/
structure Sets {α : Type} (desired previous : Option α) (value : α) : Prop where
  /-- The attribute is set. -/
  set : desired = some value
  /-- It has another value in the previous model, or none. -/
  new : previous ≠ some value

/-- The desired model sets an attribute to a list of names, and the previous model sets it to no
list with the same names. -/
structure SetsNames (desired previous : Option (List String)) (names : List String) : Prop where
  /-- The attribute is set. -/
  set : desired = some names
  /-- It has other names in the previous model, or no list at all. -/
  new : ∀ others, previous = some others → ¬∀ name, name ∈ names ↔ name ∈ others

/-- The members of a change besides the identifier. -/
@[mk_iff]
inductive Changes (desired previous : Cluster) : String → Value → Prop
  | nodeType {text : String} (h : Sets desired.nodeType previous.nodeType text) :
      Changes desired previous "NodeType" (.string text)
  | numberOfNodes {count : UInt32} (h : Sets desired.numberOfNodes previous.numberOfNodes count) :
      Changes desired previous "NumberOfNodes" (.ofWord count.toUInt64)
  | clusterType {text : String} (h : Sets desired.clusterType previous.clusterType text) :
      Changes desired previous "ClusterType" (.string text)
  | clusterVersion {text : String} (h : Sets desired.clusterVersion previous.clusterVersion text) :
      Changes desired previous "ClusterVersion" (.string text)
  | allowVersionUpgrade {allowed : Bool}
      (h : Sets desired.allowVersionUpgrade previous.allowVersionUpgrade allowed) :
      Changes desired previous "AllowVersionUpgrade" (.bool allowed)
  | maintenanceTrackName {text : String}
      (h : Sets desired.maintenanceTrackName previous.maintenanceTrackName text) :
      Changes desired previous "MaintenanceTrackName" (.string text)
  | masterUserPassword {text : String}
      (h : Sets desired.masterUserPassword previous.masterUserPassword text) :
      Changes desired previous "MasterUserPassword" (.string text)
  | port {port : UInt16} (h : Sets desired.port previous.port port) :
      Changes desired previous "Port" (.ofWord port.toUInt64)
  | publiclyAccessible {accessible : Bool}
      (h : Sets desired.publiclyAccessible previous.publiclyAccessible accessible) :
      Changes desired previous "PubliclyAccessible" (.bool accessible)
  | encrypted {encrypted : Bool} (h : Sets desired.encrypted previous.encrypted encrypted) :
      Changes desired previous "Encrypted" (.bool encrypted)
  | kmsKeyId {text : String} (h : Sets desired.kmsKeyId previous.kmsKeyId text) :
      Changes desired previous "KmsKeyId" (.string text)
  | iamRoles {names : List String} (h : SetsNames desired.iamRoles previous.iamRoles names) :
      Changes desired previous "IamRoles" (.ofStrings names)
  | vpcSecurityGroupIds {names : List String}
      (h : SetsNames desired.vpcSecurityGroupIds previous.vpcSecurityGroupIds names) :
      Changes desired previous "VpcSecurityGroupIds" (.ofStrings names)

variable {desired previous : Cluster} {name wireName identifier : String} {value : Value}

section Rows

variable {key : String}

/-- An attribute that is compared as it is has a member when it is set to another value. -/
theorem plain_iff {α : Type} [BEq α] [LawfulBEq α] {get : Cluster → Option α} {toValue : α → Value}
    (hmember : modifyMember? desired name = some (wireName, (get desired).map toValue)) :
    (Attribute.plain name get).differs desired previous = true ∧
        modifyMember? desired (Attribute.plain name get).name = some (key, some value) ↔
      ∃ v, Sets (get desired) (get previous) v ∧ key = wireName ∧ value = toValue v := by
  simp only [Attribute.plain, bne_iff_ne, hmember, Option.some.injEq, Prod.mk.injEq,
    Option.map_eq_some_iff]
  constructor
  · rintro ⟨hdiffers, rfl, v, hset, rfl⟩
    exact ⟨v, ⟨hset, fun hsame => hdiffers (hset.trans hsame.symm)⟩, rfl, rfl⟩
  · rintro ⟨v, ⟨hset, hnew⟩, rfl, rfl⟩
    exact ⟨fun hsame => hnew (hsame.symm.trans hset), rfl, v, hset, rfl⟩

/-- Unset is like no list, and lists are alike when their elements are. -/
theorem sameElements?_some_iff {names : List String} {others : Option (List String)} :
    Diff.sameElements? (some names) others = true ↔
      ∃ list, others = some list ∧ ∀ x, x ∈ names ↔ x ∈ list := by
  cases others with
  | none => simp [Diff.sameElements?]
  | some list => simp [Diff.sameElements?, Diff.sameElements_iff]

/-- An attribute that is compared as a set has a member when it is set to other names. -/
theorem unordered_iff {get : Cluster → Option (List String)}
    (hmember : modifyMember? desired name = some (wireName, (get desired).map .ofStrings)) :
    (Attribute.unordered name get).differs desired previous = true ∧
        modifyMember? desired (Attribute.unordered name get).name = some (key, some value) ↔
      ∃ names, SetsNames (get desired) (get previous) names ∧ key = wireName ∧
        value = .ofStrings names := by
  simp only [Attribute.unordered, Bool.not_eq_true', hmember, Option.some.injEq, Prod.mk.injEq,
    Option.map_eq_some_iff]
  constructor
  · rintro ⟨hdiffers, rfl, names, hset, rfl⟩
    rw [hset, ← Bool.not_eq_true, sameElements?_some_iff] at hdiffers
    exact ⟨names, ⟨hset, fun others hothers hsame => hdiffers ⟨others, hothers, hsame⟩⟩, rfl, rfl⟩
  · rintro ⟨names, ⟨hset, hnew⟩, rfl, rfl⟩
    rw [hset, ← Bool.not_eq_true, sameElements?_some_iff]
    exact ⟨fun ⟨others, hothers, hsame⟩ => hnew others hothers hsame, rfl, names, rfl, rfl⟩

end Rows

/-- The tracked attributes that differ and are set are the members of a change. -/
theorem exists_tracked_iff_changes {key : String} :
    (∃ a ∈ Attribute.plainOnes ++ Attribute.unorderedOnes, a.differs desired previous = true ∧
      modifyMember? desired a.name = some (key, some value)) ↔
    Changes desired previous key value := by
  -- Both sides are one alternative for each attribute, in the same order.
  simp only [Attribute.plainOnes, Attribute.unorderedOnes, List.cons_append, List.nil_append,
    List.exists_mem_cons_iff, List.not_mem_nil, false_and, exists_false, or_false, changes_iff]
  iterate 11 refine or_congr (plain_iff rfl) ?_
  exact or_congr (unordered_iff rfl) (unordered_iff rfl)

/-- Every tracked attribute has a member of its own. -/
theorem isSome_modifyMember? (desired : Cluster) :
    ∀ a ∈ Attribute.plainOnes ++ Attribute.unorderedOnes,
      (modifyMember? desired a.name).isSome = true :=
  List.all_eq_true.mp rfl

/-- No value of a changed attribute is null. -/
theorem Changes.isNull_eq_false (h : Changes desired previous name value) :
    value.isNull = false := by
  cases h <;> rfl

section Members

/-- The members that are set. -/
theorem mem_present_iff {members : List (String × Option Value)} :
    (name, value) ∈ members.filterMap (fun member => member.2.map (member.1, ·)) ↔
      (name, some value) ∈ members := by
  simp only [List.mem_filterMap, Option.map_eq_some_iff, Prod.mk.injEq, Prod.exists]
  constructor
  · rintro ⟨_, _, hmem, _, rfl, rfl, rfl⟩
    exact hmem
  · exact fun hmem => ⟨_, _, hmem, _, rfl, rfl, rfl⟩

/-- Leaving members out leaves the names of the others in their order. -/
theorem keys_present_sublist (members : List (String × Option Value)) :
    ((members.filterMap fun member => member.2.map (member.1, ·)).map (·.1)).Sublist
      (members.map (·.1)) := by
  induction members with
  | nil => exact .slnil
  | cons member rest ih =>
    obtain ⟨key, _ | value⟩ := member
    · exact ih.cons key
    · exact ih.cons_cons key

/-- The identifier and the tracked attributes have different names in a payload. -/
theorem nodup_keys (desired previous : Cluster) (identifier : Option Value) :
    ((("ClusterIdentifier", identifier) :: (modifiedAttributes desired previous).filterMap fun a =>
      modifyMember? desired a.name).map (·.1)).Nodup := by
  have htracked : ((modifiedAttributes desired previous).filterMap fun a =>
      modifyMember? desired a.name).Sublist
        ((Attribute.plainOnes ++ Attribute.unorderedOnes).filterMap fun a =>
          modifyMember? desired a.name) :=
    List.filter_sublist.filterMap _
  refine List.Nodup.sublist ((htracked.map _).cons_cons _) ?_
  show ["ClusterIdentifier", "NodeType", "NumberOfNodes", "ClusterType", "ClusterVersion",
    "AllowVersionUpgrade", "MaintenanceTrackName", "MasterUserPassword", "Port",
    "PubliclyAccessible", "Encrypted", "KmsKeyId", "IamRoles", "VpcSecurityGroupIds"].Nodup
  decide

/-- The members of the request are the identifier and the changed attributes that are set. -/
theorem exists_modifyRequest (previous : Cluster)
    (hid : desired.clusterIdentifier = some identifier) :
    ∃ members, modifyRequest desired previous = .ok ⟨"ModifyCluster", .object members⟩ ∧
      Entries.Ascending members ∧
      ∀ name value, (name, value) ∈ members ↔
        name = "ClusterIdentifier" ∧ value = .string identifier ∨
          Changes desired previous name value := by
  refine ⟨_, by rw [modifyRequest, id, hid]; rfl, Entries.ascending_collect _, fun name value => ?_⟩
  have hnodup := (keys_present_sublist _).nodup
    (nodup_keys desired previous (some (.string identifier)))
  rw [Entries.mem_collect hnodup, mem_present_iff, List.mem_cons, Prod.mk.injEq,
    Option.some.injEq, List.mem_filterMap, ← exists_tracked_iff_changes]
  simp only [modifiedAttributes, List.mem_filter, and_assoc]

end Members

/-- The request that changes a cluster has the cluster's identifier and the tracked attributes that
the desired model sets and the previous model does not set to the same as its members, and no
others; none of them is null, and no tracked attribute is without a member. -/
theorem modifyRequest_carries_changes {desired : Cluster} {identifier : String} (previous : Cluster)
    (hid : desired.clusterIdentifier = some identifier) :
    (∃ members, modifyRequest desired previous = .ok ⟨"ModifyCluster", .object members⟩ ∧
      Entries.Ascending members ∧
      (∀ name value, (name, value) ∈ members ↔
        name = "ClusterIdentifier" ∧ value = .string identifier ∨
          Changes desired previous name value) ∧
      ∀ member ∈ members, member.2.isNull = false) ∧
    ∀ a ∈ Attribute.plainOnes ++ Attribute.unorderedOnes,
      (modifyMember? desired a.name).isSome = true := by
  obtain ⟨members, hrequest, hascending, hmem⟩ := exists_modifyRequest previous hid
  refine ⟨⟨members, hrequest, hascending, hmem, ?_⟩, isSome_modifyMember? desired⟩
  rintro ⟨name, value⟩ hmember
  rcases (hmem name value).mp hmember with ⟨_, rfl⟩ | hchanges
  · rfl
  · exact hchanges.isNull_eq_false

/-- A cluster as it runs. -/
def runningCluster : Cluster where
  clusterIdentifier := some "analytics"
  nodeType := some "ra3.xlplus"
  numberOfNodes := some 2
  kmsKeyId := some "alias/warehouse"
  iamRoles := some ["loader", "reader"]
  vpcSecurityGroupIds := some ["sg-1"]

/-- The cluster with more nodes, its roles in another order, no security group and no key. -/
def grownCluster : Cluster :=
  { runningCluster with
    numberOfNodes := some 4
    kmsKeyId := none
    iamRoles := some ["reader", "loader"]
    vpcSecurityGroupIds := some [] }

/-- The cluster grows. -/
theorem changes_numberOfNodes :
    Changes grownCluster runningCluster "NumberOfNodes" (.ofWord 4) := by
  have hsets : Sets grownCluster.numberOfNodes runningCluster.numberOfNodes 4 := ⟨rfl, by decide⟩
  exact .numberOfNodes hsets

/-- The number of nodes and the empty list of security groups are carried, and neither the roles in
another order nor the key that is unset. -/
theorem grown_cluster_carries_changes :
    grownCluster.clusterIdentifier = some "analytics" ∧
    ∃ members, modifyRequest grownCluster runningCluster =
        .ok ⟨"ModifyCluster", .object members⟩ ∧
      ("NumberOfNodes", .ofWord 4) ∈ members ∧ ("VpcSecurityGroupIds", .ofStrings []) ∈ members ∧
      ∀ value, ("IamRoles", value) ∉ members ∧ ("KmsKeyId", value) ∉ members := by
  obtain ⟨⟨members, hrequest, _, hmem, _⟩, _⟩ :=
    modifyRequest_carries_changes runningCluster
      (rfl : grownCluster.clusterIdentifier = some "analytics")
  have hgroups :
      SetsNames grownCluster.vpcSecurityGroupIds runningCluster.vpcSecurityGroupIds [] := by
    refine ⟨rfl, ?_⟩
    rintro _ ⟨⟩ hsame
    simpa using hsame "sg-1"
  have hroles {names : List String} :
      ¬SetsNames grownCluster.iamRoles runningCluster.iamRoles names := by
    intro h
    obtain rfl := Option.some.inj h.set
    exact h.new _ rfl (by simp [or_comm])
  have hkey {text : String} : ¬Sets grownCluster.kmsKeyId runningCluster.kmsKeyId text :=
    fun h => nomatch h.set
  refine ⟨rfl, members, hrequest, (hmem _ _).mpr (.inr changes_numberOfNodes),
    (hmem _ _).mpr (.inr (.vpcSecurityGroupIds hgroups)), fun value => ?_⟩
  simp [hmem, changes_iff, hroles, hkey]

/-- The request has a member besides the identifier of the cluster. -/
def CarriesAttribute (request : RemoteRequest) : Prop :=
  ∃ name, name ≠ "ClusterIdentifier" ∧ (request.payload.get? name).isSome = true

/-- What changes has another name than the identifier. -/
theorem Changes.ne_identifier (h : Changes desired previous name value) :
    name ≠ "ClusterIdentifier" := by
  rintro rfl
  simp [changes_iff] at h

/-- Where there is something for a change to carry, an attribute differs. -/
theorem Changes.modifiedAttributes_ne_nil (h : Changes desired previous name value) :
    modifiedAttributes desired previous ≠ [] := by
  obtain ⟨a, htracked, hdiffers, _⟩ := exists_tracked_iff_changes.mpr h
  exact List.ne_nil_of_mem (List.mem_filter.mpr ⟨htracked, hdiffers⟩)

section Gate

variable (least : UInt32) (polling : BackoffPolicy) (r : ProgressRecord Cluster)

/-- Without a previous model a cluster is changed in any case. Whenever the desired model sets a
tracked attribute, and the previous model, if there is one, does not set it to the same, the cluster
is changed and the request carries an attribute. -/
theorem modification_carries_attribute {target : Target Cluster} {identifier : String}
    (hid : target.desired.clusterIdentifier = some identifier) :
    (target.previous = none → (Step.modifyCluster least polling).shouldRun target r = true) ∧
    ((∃ name value, Changes target.desired (target.previous.getD {}) name value) →
      (Step.modifyCluster least polling).shouldRun target r = true ∧
      ∃ request, (Step.modifyCluster least polling).request target r = .ok request ∧
        CarriesAttribute request) := by
  obtain ⟨desired, previous⟩ := target
  refine ⟨?_, ?_⟩
  · rintro rfl
    rfl
  · rintro ⟨name, value, hchanges⟩
    obtain ⟨members, hrequest, hascending, hmem⟩ :=
      exists_modifyRequest (previous.getD {}) hid
    refine ⟨?_, _, hrequest, name, hchanges.ne_identifier, ?_⟩
    · cases previous with
      | none => rfl
      | some previous => simpa [Step.modifyCluster] using hchanges.modifiedAttributes_ne_nil
    · have hfound : Entries.find? name members = some value :=
        (Entries.find?_eq_some_iff hascending.nodup).mpr ((hmem name value).mpr (.inr hchanges))
      exact Option.isSome_of_eq_some hfound

end Gate

/-- The change of a cluster that grows carries an attribute. -/
theorem growth_carries_attribute :
    grownCluster.clusterIdentifier = some "analytics" ∧
    Changes grownCluster runningCluster "NumberOfNodes" (.ofWord 4) ∧
    (Step.modifyCluster 3 (.constant 30 60)).shouldRun ⟨grownCluster, some runningCluster⟩ .empty =
      true ∧
    ∃ request, (Step.modifyCluster 3 (.constant 30 60)).request
        ⟨grownCluster, some runningCluster⟩ .empty = .ok request ∧ CarriesAttribute request := by
  obtain ⟨_, hcarries⟩ := modification_carries_attribute 3 (.constant 30 60) .empty
    (rfl : (⟨grownCluster, some runningCluster⟩ : Target Cluster).desired.clusterIdentifier =
      some "analytics")
  obtain ⟨hruns, hrequest⟩ := hcarries ⟨_, _, changes_numberOfNodes⟩
  exact ⟨rfl, changes_numberOfNodes, hruns, hrequest⟩

/-- The request that carries the identifier of a cluster and nothing else. -/
def bareRequest (identifier : String) : RemoteRequest :=
  ⟨"ModifyCluster", .object [("ClusterIdentifier", .string identifier)]⟩

theorem not_carriesAttribute_bareRequest (identifier : String) :
    ¬CarriesAttribute (bareRequest identifier) := by
  rintro ⟨name, hne, hsome⟩
  rw [bareRequest, Value.get?, Entries.find?, if_neg (Ne.symm hne)] at hsome
  cases hsome

/-- A cluster of which the desired model tells nothing but the identifier is changed by a request
that carries no attribute: without a previous model, and also with one that sets an attribute. -/
theorem modification_can_carry_nothing :
    ((Step.modifyCluster 3 (.constant 30 60)).shouldRun ⟨named "analytics", none⟩ .empty = true ∧
      (Step.modifyCluster 3 (.constant 30 60)).request ⟨named "analytics", none⟩ .empty =
        .ok (bareRequest "analytics")) ∧
    ((Step.modifyCluster 3 (.constant 30 60)).shouldRun
        ⟨named "analytics", some { named "analytics" with nodeType := some "dc2.large" }⟩ .empty =
          true ∧
      (Step.modifyCluster 3 (.constant 30 60)).request
        ⟨named "analytics", some { named "analytics" with nodeType := some "dc2.large" }⟩ .empty =
          .ok (bareRequest "analytics")) ∧
    ¬CarriesAttribute (bareRequest "analytics") :=
  ⟨⟨rfl, rfl⟩, ⟨rfl, rfl⟩, not_carriesAttribute_bareRequest _⟩

end Lifecycle.Cluster
