import Lifecycle.Json.Quoted
import Lifecycle.Json.Value

/-!
# JSON documents

A document is a JSON text as a tree: members stand in the order of the text and
keys may repeat. Records are encoded to documents and decoded from them, and
`Document.text` writes a document compactly. Free-form values embed into
documents (`Document.ofValue`) and are read back with a bound on the nesting
(`Document.toValue?`).
-/

namespace Lifecycle.Json

/-- A JSON text as a tree. -/
inductive Document where
  /-- The null literal. -/
  | null
  /-- A truth literal. -/
  | bool (b : Bool)
  /-- A numeral. -/
  | number (n : Number)
  /-- A string literal. -/
  | string (s : String)
  /-- Items between brackets. -/
  | array (items : List Document)
  /-- Members between braces, in the order of the text. -/
  | object (members : List (String × Document))
  /-- A well-formed part that denotes nothing: a numeral beyond the float range, a literal or an
  object key with half a character. It may stand only where nobody looks. -/
  | unreadable

namespace Document

instance : Inhabited Document := ⟨.null⟩

/-- How many levels of brackets and braces a document that is read from text may nest. -/
def maxLevels : Nat := 127

mutual

/-- The document of a value. -/
def ofValue : Value → Document
  | .null => .null
  | .bool b => .bool b
  | .number n => .number n
  | .string s => .string s
  | .array items => .array (ofItems items)
  | .object members => .object (ofMembers members)

/-- The documents of values. -/
def ofItems : List Value → List Document
  | [] => []
  | item :: items => ofValue item :: ofItems items

/-- The documents of members. -/
def ofMembers : List (String × Value) → List (String × Document)
  | [] => []
  | (key, value) :: members => (key, ofValue value) :: ofMembers members

end

mutual

/-- The value of a document that opens at most so many levels; of members with one key the last
counts. -/
def toValue? (levels : Nat) : Document → Option Value
  | .null => some .null
  | .bool b => some (.bool b)
  | .number n => some (.number n)
  | .string s => some (.string s)
  | .array items =>
    match levels with
    | 0 => none
    | inner + 1 => .array <$> toItems? inner items
  | .object members =>
    match levels with
    | 0 => none
    | inner + 1 => .ofMembers <$> toMembers? inner members
  | .unreadable => none

/-- The values of items. -/
def toItems? (levels : Nat) : List Document → Option (List Value)
  | [] => some []
  | item :: items => do return (← toValue? levels item) :: (← toItems? levels items)

/-- The values of members. -/
def toMembers? (levels : Nat) : List (String × Document) → Option (List (String × Value))
  | [] => some []
  | (key, value) :: members => do
    return (key, ← toValue? levels value) :: (← toMembers? levels members)

end

mutual

/-- How many levels of brackets and braces the document nests. -/
def levels : Document → Nat
  | .array items => levelsOfItems items + 1
  | .object members => levelsOfMembers members + 1
  | _ => 0

/-- The deepest of the items. -/
def levelsOfItems : List Document → Nat
  | [] => 0
  | item :: items => max item.levels (levelsOfItems items)

/-- The deepest of the members. -/
def levelsOfMembers : List (String × Document) → Nat
  | [] => 0
  | (_, value) :: members => max value.levels (levelsOfMembers members)

end

/-- The document of a word. -/
def ofWord (n : UInt64) : Document := .number (.ofWord n)

/-- The document of a float; what is not finite has no numeral and becomes null. -/
def ofFloat (x : Float) : Document := if x.isFinite then .number (.float x) else .null

/-- The document of something that may be missing, null when it is. -/
def orNull (document : Option Document) : Document := document.getD .null

/-- The object with those of the given members that are set, in the given order. -/
def ofPresent (members : List (String × Option Document)) : Document :=
  .object (members.filterMap fun member => member.2.map (member.1, ·))

mutual

/-- The compact text of a document, without any blanks. -/
def chars : Document → List Char
  | .null => "null".toList
  | .bool true => "true".toList
  | .bool false => "false".toList
  | .number n => n.chars
  | .string s => Quoted.encode s
  | .array items => '[' :: charsOfItems items ++ [']']
  | .object members => '\x7b' :: charsOfMembers members ++ ['\x7d']
  | .unreadable => "null".toList

/-- Items with commas between them. -/
def charsOfItems : List Document → List Char
  | [] => []
  | [item] => item.chars
  | item :: items => item.chars ++ ',' :: charsOfItems items

/-- Members with commas between them. -/
def charsOfMembers : List (String × Document) → List Char
  | [] => []
  | [(key, value)] => Quoted.encode key ++ ':' :: value.chars
  | (key, value) :: members =>
    Quoted.encode key ++ ':' :: value.chars ++ ',' :: charsOfMembers members

end

/-- The compact text of a document. -/
def text (d : Document) : String := String.ofList d.chars

end Document

/-- The compact text of a value. -/
def Value.text (v : Value) : String := (Document.ofValue v).text

end Lifecycle.Json
