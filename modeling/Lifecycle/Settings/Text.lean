import Lifecycle.Settings
import Lifecycle.Yaml.Node.Reader
import Lifecycle.Yaml.Value

/-!
# Settings as text

Settings are written in YAML, as a mapping of those that differ from their
defaults; an empty text changes nothing. Unknown settings are ignored unread. A
schedule is read without a wanted type first, because its kind may stand anywhere
among its members; so even its unknown members must mean something.
-/

namespace Lifecycle

open Json (Document)
open Yaml (Node Reading)

namespace BackoffPolicy

/-- What a key and its value say about a schedule. -/
inductive Part where
  /-- Its kind. -/
  | kind (name : String)
  /-- A member of its record. -/
  | member (key value : Yaml.Value)

/-- The schedule of a kind. -/
def Part.kind? : Part → Option String
  | .kind name => some name
  | .member .. => none

/-- The name that a key stands for: itself, or the one at its index. -/
def memberName? (names : List String) : Yaml.Value → Option String
  | .scalar (.string s) => some s
  | .scalar (.number n) => n.toNat?.map fun i => (names[i]?).getD ""
  | _ => none

/-- The members that a record knows, from all that are written. -/
def knownMembers? (names : List String) : List Part → Option (List (String × Document))
  | [] => some []
  | .kind _ :: parts => knownMembers? names parts
  | .member key value :: parts => do
    let name ← memberName? names key
    let others ← knownMembers? names parts
    if names.contains name then return (name, ← value.scalar?) :: others
    return others

/-- Reads one key with its value; the kind is a text however it is written. A number with a minus
sign is no index, not even zero. -/
def readPart (levels : Nat) (member : Node × Node) : Reading Part := do
  let node ← Reading.follow member.1
  match ← Reading.value levels node with
  | .scalar (.string "kind") => return .kind (← Reading.text member.2)
  | key =>
    guard !(key.isNumber && node.text?.any (·.startsWith "-"))
    return .member key (← Reading.value levels member.2)

/-- Reads a schedule that nests at most so many collections. -/
def read (levels : Nat) (node : Node) : Reading BackoffPolicy := do
  let inner + 1 := levels | failure
  match ← Reading.follow node with
  | .sequence p (first :: items) =>
    Reading.plainTag p
    let kind ← Reading.text first
    let values ← items.mapM (Reading.value inner)
    ofItems? kind inner (← values.mapM (·.scalar?))
  | .mapping p members =>
    Reading.plainTag p
    let parts ← members.mapM (readPart inner)
    let [kind] := parts.filterMap (·.kind?) | failure
    ofMembers? kind inner (← knownMembers? (← memberNames kind) parts)
  | _ => failure

end BackoffPolicy

namespace Settings

/-- How many collections may be nested in each other. -/
def maxNesting : Nat := 128

/-- Reads the setting of a name, which must not repeat; it keeps its default when it is missing. -/
def readMember {α : Type} (members : List (String × Node)) (name : String) (absent : α)
    (reading : Node → Reading α) : Reading α :=
  match Json.Record.under name members with
  | [] => pure absent
  | [node] => reading node
  | _ => failure

/-- Reads settings by name. -/
def readMembers (members : List (String × Node)) : Reading Settings := do
  let d : Settings := {}
  let policy := BackoffPolicy.read (maxNesting - 1)
  return { stabilization := ← readMember members "stabilization" d.stabilization policy
           throttling := ← readMember members "throttling" d.throttling policy
           modification := ← readMember members "modification" d.modification policy
           coolDown := ← readMember members "cool_down_seconds" d.coolDown Reading.word64
           settle := ← readMember members "settle_seconds" d.settle Reading.word64
           aquaMinObservations :=
             ← readMember members "aqua_min_observations" d.aquaMinObservations Reading.word32
           patchMinObservations :=
             ← readMember members "patch_min_observations" d.patchMinObservations Reading.word32 }

/-- Reads the settings of a document. -/
def read (node : Node) : Reading Settings := do
  match ← Reading.follow node with
  | .mapping _ members =>
    readMembers (← members.mapM fun member => return (← Reading.text member.1, member.2))
  | .scalar _ .plain "" => return {}
  | _ => failure

/-- The settings that a text describes, whether or not they are accepted. -/
def ofText? (text : String) : Option Settings := do
  match ← Node.read? text with
  | none => return {}
  | some root => Reading.ofRoot? read root

end Settings

end Lifecycle
