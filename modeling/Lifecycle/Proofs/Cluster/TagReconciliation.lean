import Lifecycle.Cluster.Tagging
import Lifecycle.Proofs.Cluster.Differences
import Lifecycle.Proofs.Dictionaries

/-!
# An update brings the tags about

The two steps that change tags compare lists: one looks at keys, the other at keys with their
values. Where no key is given twice, the service has the desired tags after it has served both
(`tags_reconciled`), and neither of them touches a tag that is there as it is wanted.
-/

namespace Lifecycle

open Json

/-- What a step sends: its request if it applies, and else nothing. -/
def Step.requests {M : Type} (step : Step M) (target : Target M) (r : ProgressRecord M) :
    Except Defect (List RemoteRequest) :=
  if step.shouldRun target r then do return [← step.request target r] else .ok []

/-- A step that does not apply sends nothing. -/
theorem Step.requests_of_not_shouldRun {M : Type} {step : Step M} {target : Target M}
    {r : ProgressRecord M} (happlies : step.shouldRun target r = false) :
    step.requests target r = .ok [] := by
  rw [requests, happlies]
  rfl

/-- A step that applies sends its request. -/
theorem Step.requests_of_shouldRun {M : Type} {step : Step M} {target : Target M}
    {r : ProgressRecord M} {request : RemoteRequest} (happlies : step.shouldRun target r = true)
    (hrequest : step.request target r = .ok request) : step.requests target r = .ok [request] := by
  rw [requests, happlies, hrequest]
  rfl

namespace Cluster

section Service

/-- A tag as the service keeps it: a value under a key. -/
def tagEntry (tag : Tag) : String × String := (tag.key, tag.value)

/-- The tags of a resource as the service keeps them. -/
def tagMap (tags : List Tag) : Dict String := .ofList (tags.map tagEntry)

/-- The keys of the tags that a request asks to remove. -/
def keysRemovedBy (request : RemoteRequest) : List String :=
  (((request.payload.get? "TagKeys").bind Value.array?).getD []).filterMap Value.string?

/-- A tag in a payload. -/
def tagOf? (item : Value) : Option Tag := do
  return { key := ← item.stringAt? "Key", value := ← item.stringAt? "Value" }

/-- The tags that a request asks to add. -/
def tagsAddedBy (request : RemoteRequest) : List Tag :=
  (((request.payload.get? "Tags").bind Value.array?).getD []).filterMap tagOf?

/-- The tags of a resource once the service has served a request. A tag that is added replaces the
one with its key. -/
def served (tags : Dict String) (request : RemoteRequest) : Dict String :=
  if request.operation = "DeleteTags" then tags.eraseAll (keysRemovedBy request)
  else if request.operation = "CreateTags" then
    tags.insertAll ((tagsAddedBy request).map tagEntry)
  else tags

/-- A request to remove tags names their keys. -/
theorem keysRemovedBy_deleteTagsRequest (arn : String) (keys : List String) :
    keysRemovedBy (deleteTagsRequest arn keys) = keys := by
  have hmember : (deleteTagsRequest arn keys).payload.get? "TagKeys" = some (.ofStrings keys) :=
    Value.get?_ofMembers (by simp) _
  simp only [keysRemovedBy, hmember, Value.ofStrings, Option.bind_some, Value.array?,
    Option.getD_some, List.filterMap_map]
  exact List.filterMap_some

theorem tagOf?_toValue (tag : Tag) : tagOf? tag.toValue = some tag := by
  simp [tagOf?, Tag.toValue, Value.stringAt?, Value.get?_ofMembers, Entries.find?, Value.string?]

/-- A request to add tags brings them. -/
theorem tagsAddedBy_createTagsRequest (arn : String) (tags : List Tag) :
    tagsAddedBy (createTagsRequest arn tags) = tags := by
  have hmember : (createTagsRequest arn tags).payload.get? "Tags" =
      some (.array (tags.map Tag.toValue)) :=
    Value.get?_ofMembers (by simp) _
  have htag : tagOf? ∘ Tag.toValue = some := funext tagOf?_toValue
  simp only [tagsAddedBy, hmember, Option.bind_some, Value.array?, Option.getD_some,
    List.filterMap_map, htag, List.filterMap_some]

theorem served_deleteTagsRequest (tags : Dict String) (arn : String) (keys : List String) :
    served tags (deleteTagsRequest arn keys) = tags.eraseAll keys := by
  have hoperation : (deleteTagsRequest arn keys).operation = "DeleteTags" := rfl
  rw [served, if_pos hoperation, keysRemovedBy_deleteTagsRequest]

theorem served_createTagsRequest (tags : Dict String) (arn : String) (added : List Tag) :
    served tags (createTagsRequest arn added) = tags.insertAll (added.map tagEntry) := by
  have hoperation : (createTagsRequest arn added).operation = "CreateTags" := rfl
  rw [served, if_neg (by simp [hoperation]), if_pos hoperation, tagsAddedBy_createTagsRequest]

end Service

section Lists

variable {tags : List Tag} {tag : Tag} {desired previous : Cluster}

theorem map_fst_map_tagEntry (tags : List Tag) :
    (tags.map tagEntry).map (·.1) = tags.map (·.key) := by
  rw [List.map_map]
  rfl

theorem mem_map_tagEntry {key value : String} :
    (key, value) ∈ tags.map tagEntry ↔ (⟨key, value⟩ : Tag) ∈ tags := by
  simp only [List.mem_map, tagEntry, Prod.mk.injEq]
  exact ⟨fun ⟨_, htag, hkey, hvalue⟩ => hkey ▸ hvalue ▸ htag, fun htag => ⟨_, htag, rfl, rfl⟩⟩

/-- Where no key is given twice, the service keeps each tag. -/
theorem get?_tagMap_eq_some_iff (hnodup : (tags.map (·.key)).Nodup) {key value : String} :
    (tagMap tags).get? key = some value ↔ (⟨key, value⟩ : Tag) ∈ tags := by
  rw [← map_fst_map_tagEntry] at hnodup
  rw [tagMap, Dict.get?_ofList hnodup, Entries.find?_eq_some_iff hnodup, mem_map_tagEntry]

/-- Tags to add are wanted and not there. -/
theorem mem_tagsToAdd :
    tag ∈ tagsToAdd ⟨desired, some previous⟩ ↔ tag ∈ desired.tagList ∧ tag ∉ previous.tagList :=
  Diff.mem_missing

/-- Keys to remove are there and not wanted. -/
theorem mem_tagKeysToRemove {key : String} :
    key ∈ tagKeysToRemove ⟨desired, some previous⟩ ↔
      key ∈ previous.tagList.map (·.key) ∧ key ∉ desired.tagList.map (·.key) :=
  Diff.mem_missing

/-- No key is removed and added. -/
theorem key_notMem_tagKeysToRemove (htag : tag ∈ tagsToAdd ⟨desired, some previous⟩) :
    tag.key ∉ tagKeysToRemove ⟨desired, some previous⟩ := fun hremoved =>
  (mem_tagKeysToRemove.mp hremoved).2 (List.mem_map_of_mem (mem_tagsToAdd.mp htag).1)

/-- A tag that is there, and whose key is neither removed nor added, is wanted. -/
theorem mem_desired_of_untouched (hprevious : (previous.tagList.map (·.key)).Nodup)
    (htag : tag ∈ previous.tagList) (hkept : tag.key ∉ tagKeysToRemove ⟨desired, some previous⟩)
    (hsame : tag.key ∉ (tagsToAdd ⟨desired, some previous⟩).map (·.key)) :
    tag ∈ desired.tagList := by
  rw [mem_tagKeysToRemove, not_and_not_right] at hkept
  obtain ⟨wanted, hwanted, hkey⟩ := List.mem_map.mp (hkept (List.mem_map_of_mem htag))
  have hold : wanted ∈ previous.tagList := by
    by_contra hnew
    rw [← hkey] at hsame
    exact hsame (List.mem_map_of_mem (mem_tagsToAdd.mpr ⟨hwanted, hnew⟩))
  rwa [List.inj_on_of_nodup_map hprevious hold htag hkey] at hwanted

/-- The key of a wanted tag that is there is neither removed nor added. -/
theorem untouched_of_mem_desired (hdesired : (desired.tagList.map (·.key)).Nodup)
    (hwanted : tag ∈ desired.tagList) (htag : tag ∈ previous.tagList) :
    tag.key ∉ tagKeysToRemove ⟨desired, some previous⟩ ∧
      tag.key ∉ (tagsToAdd ⟨desired, some previous⟩).map (·.key) := by
  refine ⟨fun hremoved => (mem_tagKeysToRemove.mp hremoved).2 (List.mem_map_of_mem hwanted), ?_⟩
  intro hadded
  obtain ⟨other, hother, hkey⟩ := List.mem_map.mp hadded
  obtain ⟨hother, hnew⟩ := mem_tagsToAdd.mp hother
  rw [List.inj_on_of_nodup_map hdesired hother hwanted hkey] at hnew
  exact hnew htag

/-- Removing the keys that are not wanted and storing the tags that are not there makes the previous
tags the desired ones. -/
theorem insertAll_eraseAll_tagMap (hdesired : (desired.tagList.map (·.key)).Nodup)
    (hprevious : (previous.tagList.map (·.key)).Nodup) :
    ((tagMap previous.tagList).eraseAll (tagKeysToRemove ⟨desired, some previous⟩)).insertAll
        ((tagsToAdd ⟨desired, some previous⟩).map tagEntry) = tagMap desired.tagList := by
  have hadd : (((tagsToAdd ⟨desired, some previous⟩).map tagEntry).map (·.1)).Nodup := by
    rw [map_fst_map_tagEntry]
    exact hdesired.sublist (List.filter_sublist.map _)
  refine Dict.ext_get? fun key => Option.ext fun value => ?_
  rw [Dict.get?_insertAll hadd, Dict.get?_eraseAll, get?_tagMap_eq_some_iff hdesired,
    Option.or_eq_some_iff, Entries.find?_eq_some_iff hadd, mem_map_tagEntry, mem_tagsToAdd,
    Entries.find?_eq_none_iff, map_fst_map_tagEntry, Option.ite_none_left_eq_some,
    get?_tagMap_eq_some_iff hprevious]
  constructor
  · rintro (⟨hwanted, _⟩ | ⟨hsame, hkept, htag⟩)
    · exact hwanted
    · exact mem_desired_of_untouched hprevious htag hkept hsame
  · intro hwanted
    by_cases htag : (⟨key, value⟩ : Tag) ∈ previous.tagList
    · obtain ⟨hkept, hsame⟩ := untouched_of_mem_desired hdesired hwanted htag
      exact .inr ⟨hsame, hkept, htag⟩
    · exact .inl ⟨hwanted, htag⟩

/-- No key is to be removed and no tag to be added exactly when the tags are the same. -/
theorem tagKeysToRemove_and_tagsToAdd_eq_nil_iff
    (hprevious : (previous.tagList.map (·.key)).Nodup) :
    tagKeysToRemove ⟨desired, some previous⟩ = [] ∧ tagsToAdd ⟨desired, some previous⟩ = [] ↔
      ∀ tag, tag ∈ desired.tagList ↔ tag ∈ previous.tagList := by
  constructor
  · rintro ⟨hremoved, hadded⟩ tag
    refine ⟨fun hwanted => ?_, fun htag => ?_⟩
    · by_contra hnew
      have hadd := mem_tagsToAdd.mpr ⟨hwanted, hnew⟩
      rw [hadded] at hadd
      cases hadd
    · exact mem_desired_of_untouched hprevious htag (by simp [hremoved]) (by simp [hadded])
  · intro hsame
    simp only [List.eq_nil_iff_forall_not_mem, mem_tagKeysToRemove, mem_tagsToAdd, List.mem_map,
      hsame]
    exact ⟨fun _ h => h.2 h.1, fun _ h => h.2 h.1⟩

end Lists

section Requests

variable {scope : ResourceScope} {r : ProgressRecord Cluster} {desired previous : Cluster}
  {identifier : String}

theorem shouldRun_deleteTags_eq_false_iff :
    (Step.deleteTags scope).shouldRun ⟨desired, some previous⟩ r = false ↔
      tagKeysToRemove ⟨desired, some previous⟩ = [] := by
  simp [Step.deleteTags]

theorem shouldRun_createTags_eq_false_iff :
    (Step.createTags scope).shouldRun ⟨desired, some previous⟩ r = false ↔
      tagsToAdd ⟨desired, some previous⟩ = [] := by
  simp [Step.createTags, Target.isCreate]

/-- What is sent to change tags does so with all that is to change, and is nothing when there is
nothing to change. -/
theorem exists_requests {α : Type} {step : Step Cluster} {target : Target Cluster} {items : List α}
    {request : RemoteRequest} {read : RemoteRequest → List α}
    (effect : Dict String → List α → Dict String)
    (hgate : step.shouldRun target r = false ↔ items = [])
    (hrequest : step.request target r = .ok request) (hread : read request = items)
    (hserved : ∀ tags, served tags request = effect tags items)
    (hnil : ∀ tags, effect tags [] = tags) :
    ∃ requests, step.requests target r = .ok requests ∧ requests.flatMap read = items ∧
      ∀ tags, requests.foldl served tags = effect tags items := by
  cases happlies : step.shouldRun target r with
  | false =>
    rw [hgate.mp happlies]
    exact ⟨[], Step.requests_of_not_shouldRun happlies, rfl, fun tags => (hnil tags).symm⟩
  | true =>
    refine ⟨[request], Step.requests_of_shouldRun happlies hrequest, ?_, hserved⟩
    rw [List.flatMap_singleton, hread]

variable (scope r previous) (hid : desired.clusterIdentifier = some identifier)
include hid

/-- What is sent to remove tags names the keys to remove, and no others. -/
theorem exists_deletion :
    ∃ deletion, (Step.deleteTags scope).requests ⟨desired, some previous⟩ r = .ok deletion ∧
      deletion.flatMap keysRemovedBy = tagKeysToRemove ⟨desired, some previous⟩ ∧
      ∀ tags, deletion.foldl served tags =
        tags.eraseAll (tagKeysToRemove ⟨desired, some previous⟩) := by
  refine exists_requests Dict.eraseAll shouldRun_deleteTags_eq_false_iff ?_
    (keysRemovedBy_deleteTagsRequest (scope.clusterArn identifier) _)
    (fun tags => served_deleteTagsRequest tags _ _) fun _ => rfl
  simp only [Step.deleteTags, id, hid]
  rfl

/-- What is sent to add tags brings the tags to add, and no others. -/
theorem exists_creation :
    ∃ creation, (Step.createTags scope).requests ⟨desired, some previous⟩ r = .ok creation ∧
      creation.flatMap tagsAddedBy = tagsToAdd ⟨desired, some previous⟩ ∧
      ∀ tags, creation.foldl served tags =
        tags.insertAll ((tagsToAdd ⟨desired, some previous⟩).map tagEntry) := by
  refine exists_requests (fun tags added => tags.insertAll (added.map tagEntry))
    shouldRun_createTags_eq_false_iff ?_
    (tagsAddedBy_createTagsRequest (scope.clusterArn identifier) _)
    (fun tags => served_createTagsRequest tags _ _) fun _ => rfl
  simp only [Step.createTags, id, hid]
  rfl

end Requests

/-- Where an update is not refused and neither model gives a tag key twice, a resource with the
previous tags has the desired ones after the requests of the two steps that change tags, as far as
these apply, are served. No key is removed and added, no tag is added that is there as it is wanted,
and neither step applies exactly when the tags are the same. -/
theorem tags_reconciled (scope : ResourceScope) (r : ProgressRecord Cluster)
    {desired previous : Cluster} (haccepted : refusal .update desired = none)
    (hdesired : (desired.tagList.map (·.key)).Nodup)
    (hprevious : (previous.tagList.map (·.key)).Nodup) :
    ∃ deletion creation,
      (Step.deleteTags scope).requests ⟨desired, some previous⟩ r = .ok deletion ∧
      (Step.createTags scope).requests ⟨desired, some previous⟩ r = .ok creation ∧
      (deletion ++ creation).foldl served (tagMap previous.tagList) = tagMap desired.tagList ∧
      (∀ tag ∈ creation.flatMap tagsAddedBy, tag.key ∉ deletion.flatMap keysRemovedBy ∧
        (tagMap previous.tagList).get? tag.key ≠ some tag.value) ∧
      ((Step.deleteTags scope).shouldRun ⟨desired, some previous⟩ r = false ∧
          (Step.createTags scope).shouldRun ⟨desired, some previous⟩ r = false ↔
        ∀ tag, tag ∈ desired.tagList ↔ tag ∈ previous.tagList) := by
  obtain ⟨identifier, hid⟩ := Option.isSome_iff_exists.mp (isSome_of_refusal haccepted)
  obtain ⟨deletion, hdeletion, hremoved, hdeleted⟩ :=
    exists_deletion scope r previous hid
  obtain ⟨creation, hcreation, hadded, hcreated⟩ :=
    exists_creation scope r previous hid
  refine ⟨deletion, creation, hdeletion, hcreation, ?_, ?_, ?_⟩
  · rw [List.foldl_append, hdeleted, hcreated]
    exact insertAll_eraseAll_tagMap hdesired hprevious
  · rw [hadded, hremoved]
    intro tag htag
    refine ⟨key_notMem_tagKeysToRemove htag, ?_⟩
    rw [ne_eq, get?_tagMap_eq_some_iff hprevious]
    exact (mem_tagsToAdd.mp htag).2
  · rw [shouldRun_deleteTags_eq_false_iff, shouldRun_createTags_eq_false_iff]
    exact tagKeysToRemove_and_tagsToAdd_eq_nil_iff hprevious

/-- Tags before they are rotated. -/
def worn : List Tag := [⟨"team", "data"⟩, ⟨"env", "dev"⟩, ⟨"owner", "alice"⟩, ⟨"tier", "1"⟩]

/-- Of the four tags one is gone, one has another value and two stay, in another order; one is
new. -/
def rotated : List Tag := [⟨"tier", "1"⟩, ⟨"cost", "low"⟩, ⟨"env", "prod"⟩, ⟨"team", "data"⟩]

/-- Tags are rotated. -/
theorem rotated_tags_reconciled :
    refusal .update (taggedCluster rotated) = none ∧
    ((taggedCluster rotated).tagList.map (·.key)).Nodup ∧
    ((taggedCluster worn).tagList.map (·.key)).Nodup ∧
    ∃ deletion creation,
      (Step.deleteTags {}).requests ⟨taggedCluster rotated, some (taggedCluster worn)⟩ .empty =
        .ok deletion ∧
      (Step.createTags {}).requests ⟨taggedCluster rotated, some (taggedCluster worn)⟩ .empty =
        .ok creation ∧
      (deletion ++ creation).foldl served (tagMap worn) = tagMap rotated ∧
      ∀ tag ∈ creation.flatMap tagsAddedBy, tag.key ∉ deletion.flatMap keysRemovedBy := by
  have hrotated : ((taggedCluster rotated).tagList.map (·.key)).Nodup := by decide
  have hworn : ((taggedCluster worn).tagList.map (·.key)).Nodup := by decide
  obtain ⟨deletion, creation, hdeletion, hcreation, hserved, hapart, _⟩ :=
    tags_reconciled {} .empty rfl hrotated hworn
  exact ⟨rfl, hrotated, hworn, deletion, creation, hdeletion, hcreation, hserved,
    fun tag htag => (hapart tag htag).1⟩

end Cluster

end Lifecycle
