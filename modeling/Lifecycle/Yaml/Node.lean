import Lifecycle.Yaml.Token

/-!
# YAML nodes

A document is a tree of scalars, sequences and mappings. A node may have an anchor
and then be referred to from elsewhere. Anchors are numbers here, given in the
order of the text: the number of an anchor is how many names were in use before
it. A name used again therefore takes a number that a later new name takes as
well; the later node is then the one referred to, from everywhere.
-/

namespace Lifecycle.Yaml

/-- A tag, with its handle replaced and its escapes undone. -/
abbrev Tag := List UInt8

namespace Tag

/-- The bytes of an ASCII or other text. -/
def ofString (s : String) : Tag := s.toUTF8.toList

/-- Local tags start with a mark; only a tag that is a text counts. -/
def isLocal (t : Tag) : Bool :=
  t.head? == some 0x21 && ByteArray.validateUTF8 ⟨t.tail.toArray⟩

/-- The part of a tag's bytes that counts: a zero byte ends it. -/
def upToZero (bytes : List UInt8) : Tag := bytes.takeWhile (· != 0)

/-- What comes before the names of the core tags. -/
def core : Tag := ofString "tag:yaml.org,2002:"

end Tag

/-- What annotates a node. -/
structure Properties where
  /-- The number of its anchor. -/
  anchor : Option Nat := none
  /-- Its tag. -/
  tag : Option Tag := none
  deriving DecidableEq, Repr

/-- A part of a document. -/
inductive Node where
  /-- A reference to the node with an anchor's number. -/
  | alias (anchor : Nat)
  /-- A scalar. -/
  | scalar (properties : Properties) (style : Style) (text : String)
  /-- Nodes in order. -/
  | sequence (properties : Properties) (items : List Node)
  /-- Keys with values, in order. -/
  | mapping (properties : Properties) (members : List (Node × Node))

namespace Node

/-- A place where a node could stand and none does. -/
def empty : Node := .scalar {} .plain ""

/-- What annotates the node. -/
def properties : Node → Properties
  | .alias _ => {}
  | .scalar p .. | .sequence p .. | .mapping p .. => p

/-- The text of a scalar. -/
def text? : Node → Option String
  | .scalar _ _ text => some text
  | _ => none

mutual

/-- How many events tell of a node: one for a scalar or a reference, and one for the start and one
for the end of a collection, besides those of its parts. -/
def events : Node → Nat
  | .alias _ | .scalar .. => 1
  | .sequence _ items => eventsOfItems items + 2
  | .mapping _ members => eventsOfMembers members + 2

/-- The events of items. -/
def eventsOfItems : List Node → Nat
  | [] => 0
  | item :: items => item.events + eventsOfItems items

/-- The events of keys and values. -/
def eventsOfMembers : List (Node × Node) → Nat
  | [] => 0
  | (key, value) :: members => key.events + value.events + eventsOfMembers members

end

mutual

/-- The nodes with a given anchor, in the order in which they start. -/
def anchored (anchor : Nat) (node : Node) : List Node :=
  let inside := match node with
    | .alias _ | .scalar .. => []
    | .sequence _ items => anchoredItems anchor items
    | .mapping _ members => anchoredMembers anchor members
  if node.properties.anchor = some anchor then node :: inside else inside

/-- The nodes with a given anchor within items. -/
def anchoredItems (anchor : Nat) : List Node → List Node
  | [] => []
  | item :: items => item.anchored anchor ++ anchoredItems anchor items

/-- The nodes with a given anchor within keys and values. -/
def anchoredMembers (anchor : Nat) : List (Node × Node) → List Node
  | [] => []
  | (key, value) :: members =>
    key.anchored anchor ++ value.anchored anchor ++ anchoredMembers anchor members

end

/-- The node that references to an anchor within this one mean. -/
def target? (root : Node) (anchor : Nat) : Option Node := (root.anchored anchor).getLast?

end Node

end Lifecycle.Yaml
