import Lifecycle.Cluster.Model
import Lifecycle.Diff
import Lifecycle.Scope
import Lifecycle.Step

/-!
# Tags of a cluster

An update removes the tags whose keys are no longer wanted and adds the tags that
are new or have another value; a tag that is there already is not sent. A new
cluster gets its tags with its creation, a restored one afterwards.
-/

namespace Lifecycle.Cluster

open Json

/-- Wanted tags that are not there yet. -/
def tagsToAdd (target : Target Cluster) : List Tag :=
  Diff.missing target.desired.tagList ((target.previous.map tagList).getD [])

/-- Keys of tags that are there and not wanted any more. -/
def tagKeysToRemove (target : Target Cluster) : List String :=
  match target.previous with
  | none => []
  | some previous =>
    Diff.missing (previous.tagList.map (·.key)) (target.desired.tagList.map (·.key))

/-- The request that adds tags. -/
def createTagsRequest (arn : String) (tags : List Tag) : RemoteRequest :=
  ⟨"CreateTags", .ofMembers [
    ("ResourceName", .string arn),
    ("Tags", .array (tags.map Tag.toValue))]⟩

/-- The request that removes tags. -/
def deleteTagsRequest (arn : String) (keys : List String) : RemoteRequest :=
  ⟨"DeleteTags", .ofMembers [("ResourceName", .string arn), ("TagKeys", .ofStrings keys)]⟩

namespace Step

/-- Removes tags that are not wanted any more. -/
def deleteTags (scope : ResourceScope) : Step Cluster where
  name := "delete-tags"
  shouldRun target _ := !(tagKeysToRemove target).isEmpty
  request target _ := do
    return deleteTagsRequest (scope.clusterArn (← target.desired.id)) (tagKeysToRemove target)

/-- Adds tags that are not there yet, except to a cluster that was made with them. -/
def createTags (scope : ResourceScope) : Step Cluster where
  name := "create-tags"
  shouldRun target _ :=
    (!target.isCreate || target.desired.isRestore) && !(tagsToAdd target).isEmpty
  request target _ := do
    return createTagsRequest (scope.clusterArn (← target.desired.id)) (tagsToAdd target)

end Step

end Lifecycle.Cluster
