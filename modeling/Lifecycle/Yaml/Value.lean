import Lifecycle.Json.Document
import Lifecycle.Yaml.Node
import Lifecycle.Yaml.Numeral

/-!
# What YAML nodes mean

`Reading` follows references while nodes are read, at most a hundred times for
each event of the document, so that no small text stands for a huge one. A node
is read as the type that is wanted there (`text`, `word64`), or without a wanted
type as a `Value`: then its spelling and its tag decide.
-/

namespace Lifecycle.Yaml

/-- The meaning of a node. -/
inductive Value where
  /-- A scalar. -/
  | scalar (s : Json.Document)
  /-- Values in order. -/
  | sequence (items : List Value)
  /-- Keys with values, in order. -/
  | mapping (members : List (Value × Value))

namespace Value

/-- The meaning of a scalar, as a document without parts. -/
def scalar? : Value → Option Json.Document
  | .scalar s => some s
  | _ => none

/-- It is a number. -/
def isNumber : Value → Bool
  | .scalar (.number _) => true
  | _ => false

/-- The words for nothing. -/
def isNull (s : String) : Bool := ["null", "Null", "NULL", "~"].contains s

/-- The words for truth values. -/
def bool? (s : String) : Option Bool :=
  if ["true", "True", "TRUE"].contains s then some true
  else if ["false", "False", "FALSE"].contains s then some false
  else none

/-- The number for a text, if it denotes one that is not a decimal fraction. Integers of up to 128
bits that do not fit 64 bits are errors, which the inner option shows. -/
def integer? (s : String) : Option (Option Json.Document) :=
  match Numeral.integer? s.toList with
  | none => none
  | some n =>
    match Json.WireInt.ofInt? n with
    | some w => some (some (.number (.integer w)))
    | none =>
      if -0x80000000000000000000000000000000 ≤ n ∧ n < 0x100000000000000000000000000000000 then
        some none
      else none

/-- The float for a text. -/
def float? (s : String) : Option Json.Document :=
  (Numeral.float? s.toList).map fun x => .number (.float x)

/-- The meaning of an untagged plain scalar. -/
def ofPlain? (s : String) : Option Json.Document :=
  if s.isEmpty ∨ isNull s then some .null
  else
    match bool? s, integer? s with
    | some b, _ => some (.bool b)
    | none, some n => n
    | none, none =>
      if Numeral.isPadded s.toList then some (.string s) else (float? s).getD (.string s)

/-- The meaning of a scalar under one of the core tags; without a type of its own, a tag makes it
a text. -/
def ofTagged? (tag : Tag) (s : String) : Option Json.Document :=
  if tag = Tag.core ++ Tag.ofString "bool" then (bool? s).map .bool
  else if tag = Tag.core ++ Tag.ofString "int" then (integer? s).join
  else if tag = Tag.core ++ Tag.ofString "float" then float? s
  else if tag = Tag.core ++ Tag.ofString "null" then if isNull s then some .null else none
  else some (.string s)

/-- The meaning of a scalar; no local tag is known. -/
def ofScalar? (tag : Option Tag) (style : Style) (s : String) : Option Json.Document :=
  match tag with
  | none => if style = .plain then ofPlain? s else some (.string s)
  | some tag =>
    if tag.isLocal then none
    else if tag.head? = some 0x21 ∧ style = .plain then ofPlain? s
    else ofTagged? tag s

end Value

/-- Reading in a document, whose root is at hand, with so many references left to follow. -/
abbrev Reading := ReaderT Node (StateT Nat Option)

namespace Reading

/-- The node itself, or the one it refers to. -/
def follow : Node → Reading Node
  | .alias anchor => do
    let left + 1 ← get | failure
    set left
    (← read).target? anchor
  | node => pure node

/-- The text of a scalar, however it is written and tagged. -/
def text (node : Node) : Reading String := do
  let .scalar _ _ s ← follow node | failure
  return s

/-- A 64-bit word: a plain scalar, or a literal block that is tagged as an integer. -/
def word64 (node : Node) : Reading UInt64 := do
  let .scalar p style s ← follow node | failure
  guard (style = .plain ∨ style = .literal ∧ p.tag = some (Tag.core ++ Tag.ofString "int"))
  let n ← Numeral.natural? s.toList
  guard (n < UInt64.size)
  return UInt64.ofNat n

/-- A 32-bit word, written as a 64-bit one. -/
def word32 (node : Node) : Reading UInt32 := do
  let n ← word64 node
  guard (n.toNat < UInt32.size)
  return n.toUInt32

/-- No local tag is known. -/
def plainTag (p : Properties) : Reading Unit := guard (!p.tag.any Tag.isLocal)

/-- The meaning of a node that nests at most so many collections. -/
def value (levels : Nat) (node : Node) : Reading Value := do
  match ← follow node with
  | .scalar p style s => return .scalar (← Value.ofScalar? p.tag style s)
  | .sequence p items =>
    plainTag p
    match levels with
    | 0 => failure
    | inner + 1 => return .sequence (← items.mapM (value inner))
  | .mapping p members =>
    plainTag p
    match levels with
    | 0 => failure
    | inner + 1 =>
      return .mapping (← members.mapM fun member => do
        return (← value inner member.1, ← value inner member.2))
  | .alias _ => failure

/-- Reads the root of a document. -/
def ofRoot? {α : Type} (reading : Node → Reading α) (root : Node) : Option α :=
  (·.1) <$> (reading root).run root (100 * root.events)

end Reading

end Lifecycle.Yaml
